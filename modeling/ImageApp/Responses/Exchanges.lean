import ImageApp.Responses.AnswerStream
import ImageApp.Responses.OnTheWire
import ImageApp.Responses.PageFailures

/-!
# A connection call by call

The iterations of a worker with the single calls that send their answers. Where `sendStep` takes it
as given that an answer is sent, and whether its client is gone, `exchangeStep` makes the calls and
looks at what `send_image` returns.

`sendStep_of_exchangeStep` is the refinement: an iteration whose calls deliver its answer is one of
`sendStep`. So what a client reads there it also reads here (`readAnswers_of_exchanges`).
-/

set_option autoImplicit false
set_option relaxedAutoImplicit false

namespace ImageApp.Responses

open Foundations.CStrings Foundations.DecimalRows Foundations.Extents Foundations.GuardedRuns
  Foundations.HeaderBlocks Foundations.LoopRuns Connections Server Server.Senders

/-! ### Answers that are delivered -/

/-- No call of `send` fails, and what they accept of a header adds up to its length. -/
structure HeaderFits (calls : Calls) (text : List Byte) : Prop where
  sends : PartialSends calls.send
  addsUp : ∃ k s, sendHeader calls.send (text ++ [0]) text.length k = .ended s false ∧
    s.sent = text.length

/-- The header of an image is sent as it should be, and no transfer of its file fails. -/
structure ImageFits (calls : Calls) (content : List Byte) : Prop where
  size : content.length < 2 ^ 63
  header : HeaderFits calls (buildMessage content.length true [])
  transfers : PartialTransfers content.length (calls.sendfile 0)

/-- The header of a page is sent as it should be, and `write_block` writes the page in order. -/
structure PageFits (calls : Calls) (page : List Byte) : Prop where
  size : pageLength page < 2 ^ 63
  header : HeaderFits calls (buildMessage (pageLength page) false page)
  body : ∃ k s, writeBlock calls.write (startBlock (pageLength page)) k = .ended s none ∧
    s.written = extent 0 (pageLength page)

/-- A header that the first call takes is sent as it should be. -/
theorem headerFits_of_whole {calls : Calls} {text : List Byte} (hsends : PartialSends calls.send)
    (hnul : (0 : Byte) ∉ text) (hsome : 0 < text.length)
    (hwhole : calls.send 0 0 text.length = .accepted text.length) : HeaderFits calls text := by
  have hone := @sendHeader_one calls.send text [] _ hnul hsome hwhole
  exact ⟨hsends, 2, _, sendHeader_ended hone le_rfl, rfl⟩

/-- A page that the first calls take is sent as it should be. -/
theorem pageFits_of_whole {calls : Calls} {page : List Byte} (hsize : pageLength page < 2 ^ 63)
    (hheader : HeaderFits calls (buildMessage (pageLength page) false page))
    (hwhole : calls.write 0 0 (pageLength page) = .accepted (pageLength page)) :
    PageFits calls page := by
  have hblock := @writeBlock_of_whole calls.write (startBlock (pageLength page)) rfl
    (Nat.succ_pos _) (hsize.trans (by norm_num)) hwhole
  exact ⟨hsize, hheader, 2, _, hblock, rfl⟩

/-- A header that is sent as it should be is what the client receives. -/
theorem headerOnWire_of_fits {calls : Calls} {fileSize : ℕ} {image : Bool}
    {msgError text header : List Byte} {failed : Bool} {fuel : ℕ}
    (htext : buildMessage fileSize image msgError = text) (hsome : 0 < text.length)
    (hroom : 2 * text.length ≤ 512) (hfits : HeaderFits calls text)
    (hheader : headerOnWire calls fileSize image msgError fuel = some (header, failed)) :
    header = text ∧ failed = false ∧
      ∃ s, sendHeader calls.send (text ++ [0]) text.length fuel = .ended s false := by
  obtain ⟨stray, k, s, -, -, hended, hsent, hbytes⟩ :=
    headerOnWire_spec hfits.sends htext hsome hroom
  obtain ⟨m, t, hadds, hlength⟩ := hfits.addsUp
  obtain ⟨rfl, -⟩ := eq_of_ended hended hadds
  have hstray : stray = [] := List.length_eq_zero_iff.mp (by omega)
  rw [hbytes] at hheader
  cases hprogress : sendHeader calls.send (text ++ [0]) text.length fuel with
  | running u =>
    rw [hprogress] at hheader
    cases hheader
  | ended u result =>
    obtain ⟨-, rfl⟩ := eq_of_ended hprogress hended
    rw [hprogress, hstray, List.append_nil] at hheader
    cases hheader
    exact ⟨rfl, rfl, u, rfl⟩

/-- An image that is delivered is the one of `send_image`. -/
theorem imageOnWire_of_fits {calls : Calls} {content wire : List Byte} {cmd : RqstStat} {fuel : ℕ}
    (hfits : ImageFits calls content) (hwire : imageOnWire calls content cmd fuel = some wire) :
    wire = Server.sendImage content cmd := by
  obtain ⟨hsome, hroom⟩ := length_buildMessage_image hfits.size []
  obtain ⟨⟨header, failed⟩, hheader, -⟩ := Option.bind_eq_some_iff.mp hwire
  obtain ⟨rfl, rfl, s, hended⟩ := headerOnWire_of_fits rfl hsome hroom hfits.header hheader
  rw [imageOnWire_of_header hended hheader] at hwire
  rw [Server.sendImage]
  split_ifs at hwire ⊢
  · obtain ⟨image, himage, rfl⟩ := Option.map_eq_some_iff.mp hwire
    rw [(sent_of_sendImageLoop hfits.transfers himage).2.1]
  · rw [List.append_nil]
    exact (Option.some_inj.mp hwire).symm

/-- The header of a page takes up no more than half of `msg`. -/
theorem length_buildMessage_page {page : List Byte} (hsize : pageLength page < 2 ^ 63) :
    0 < (buildMessage (pageLength page) false page).length ∧
      2 * (buildMessage (pageLength page) false page).length ≤ 512 := by
  have hdigits : digitCount (pageLength page) ≤ 19 :=
    (Nat.digits_length_le_iff (by decide) _).mpr (hsize.trans (by norm_num))
  have hmessage : buildMessage (pageLength page) false page =
      headerBlock ((pageLines 0).take 3 ++
        lengthLine (pageLength page) :: [bytes "Connection: Closed"]) := buildMessage_page page
  have hrest : (headerBlock ((pageLines 0).take 3 ++
      lengthLine 0 :: [bytes "Connection: Closed"])).length = 110 := by decide +kernel
  rw [hmessage, length_headerBlock_frame, hrest]
  omega

/-- The sender of a page stops when `write_block` has written it. -/
theorem written_of_sendPageBody {write : Write} {len fuel : ℕ} (hlen : 0 < len)
    (hbound : len < 2 ^ 64)
    (hbody : ∃ k s, writeBlock write (startBlock len) k = .ended s none ∧
      s.written = extent 0 len)
    {ended : SenderEnd} {body : PageState}
    (hsend : sendPageBody write len fuel = some (ended, body)) : body.written = extent 0 len := by
  obtain ⟨k, s, hended, hwritten⟩ := hbody
  have hleft : (⟨0, 0, []⟩ : PageState).left len = len := by
    rw [PageState.left, Int.sub_zero, unsignedLong_natCast hbound]
  have hstart : (⟨0, 0, []⟩ : PageState).startBlock len = startBlock len := by
    rw [PageState.startBlock, hleft]
    rfl
  rcases fuel with _ | fuel
  · cases hsend
  rw [sendPageBody, sendPageLoop, if_pos (by decide), if_pos (by omega), hstart] at hsend
  cases hprogress : writeBlock write (startBlock len) fuel with
  | running t =>
    rw [hprogress] at hsend
    cases hsend
  | ended t value =>
    obtain ⟨rfl, rfl⟩ := eq_of_ended hprogress hended
    rw [hprogress] at hsend
    cases hsend
    exact hwritten

/-- A page that is delivered is the one of its sender. -/
theorem pageOnWire_of_fits {calls : Calls} {page wire : List Byte} {fuel : ℕ}
    (hfits : PageFits calls page) (hwire : pageOnWire calls page fuel = some wire) :
    wire = sendPage page := by
  obtain ⟨hsome, hroom⟩ := length_buildMessage_page hfits.size
  obtain ⟨⟨header, failed⟩, hheader, hrest⟩ := Option.bind_eq_some_iff.mp hwire
  obtain ⟨⟨ended, body⟩, hsend, hbytes⟩ := Option.bind_eq_some_iff.mp hrest
  dsimp only at hbytes
  split_ifs at hbytes
  obtain ⟨rfl, rfl, s, hended⟩ := headerOnWire_of_fits rfl hsome hroom hfits.header hheader
  rw [sendErrorPage, ← pageLength, hended] at hsend
  have hwritten := written_of_sendPageBody (Nat.succ_pos _) (hfits.size.trans (by norm_num))
    hfits.body hsend
  have hlength : (untilNul page).length.succ = (untilNul page ++ [0]).length := by simp
  rw [hwritten, hlength, readAt_extent le_rfl, List.take_length] at hbytes
  exact (Option.some_inj.mp hbytes).symm

/-- The calls deliver what an effect sends. -/
def EffectFits (calls : Calls) (contents : Contents) : Effect → Prop
  | .sendServiceUnavailable _ => PageFits calls contents.pages.serviceUnavailable
  | .sendBadRequest _ => PageFits calls contents.pages.badRequest
  | .sendImage _ .adapted _ => ImageFits calls contents.adapted
  | .sendImage _ .icon _ => ImageFits calls contents.icon
  | _ => True

/-- What is delivered of an effect is what it sends. -/
theorem transmit_of_fits {calls : Calls} {contents : Contents} {fuel : ℕ} {effect : Effect}
    {wire : List Byte} (hfits : EffectFits calls contents effect)
    (hwire : transmitBy calls contents fuel effect = some wire) :
    transmit contents effect = some wire := by
  cases effect with
  | sendServiceUnavailable connSd =>
    exact congrArg some (pageOnWire_of_fits hfits hwire).symm
  | sendBadRequest connSd => exact congrArg some (pageOnWire_of_fits hfits hwire).symm
  | sendImage connSd sent cmd =>
    cases sent with
    | adapted => exact congrArg some (imageOnWire_of_fits hfits hwire).symm
    | icon => exact congrArg some (imageOnWire_of_fits hfits hwire).symm
    | none => cases hwire
  | _ => exact hwire

/-- What is delivered of a list of effects is what they send. -/
theorem transmitted_of_fits {calls : Calls} {contents : Contents} {fuel : ℕ}
    {effects : List Effect} {wire : List Byte}
    (hfits : ∀ effect ∈ effects, EffectFits calls contents effect)
    (hwire : transmittedBy calls contents fuel effects = some wire) :
    transmitted contents effects = some wire := by
  induction effects generalizing wire with
  | nil => exact hwire
  | cons effect effects ih =>
    obtain ⟨hfirst, hlater⟩ := List.forall_mem_cons.mp hfits
    obtain ⟨texts, htexts, rfl⟩ := Option.map_eq_some_iff.mp hwire
    rw [List.mapM_cons] at htexts
    obtain ⟨text, htext, htexts⟩ := Option.bind_eq_some_iff.mp htexts
    obtain ⟨rest, hrest, htexts⟩ := Option.bind_eq_some_iff.mp htexts
    cases htexts
    have hbehind := ih hlater (Option.map_eq_some_iff.mpr ⟨rest, hrest, rfl⟩)
    rw [transmitted, transmit_of_fits hfirst htext, Option.bind_some, hbehind]
    rfl

/-! ### Iterations with their calls -/

/-- An iteration with the files that are there in it, the calls for its answer, and a bound for
their loops. The input has whether the client counts as gone when `send_image` returns no value. -/
structure Exchange where
  contents : Contents
  input : IterationInput
  calls : Calls
  fuel : ℕ

/-- The client counts as gone when `send_image` returns `CONNECTION_CLOSED`. -/
def goneAfter (input : IterationInput) (image : ImageEnd) : Bool :=
  match image.ended with
  | .returned value => value = .connectionClosed
  | _ => input.clientGone

/-- The input with what is found about the client when an image is sent. -/
def settledInput (worker : Worker) (exchange : Exchange) : Option IterationInput :=
  match answeredRequest worker exchange.input with
  | some (.requestReceived, request) =>
    if exchange.input.imagePresent then
      (Senders.sendImage exchange.calls.send exchange.calls.sendfile exchange.contents.adapted
          exchange.contents.adapted.length request.cmd exchange.fuel).map fun image ↦
        { exchange.input with clientGone := goneAfter exchange.input image }
    else some exchange.input
  | _ => some exchange.input

/-- An iteration whose answer is sent by its calls. -/
def exchangeStep (state : SendRun) (exchange : Exchange) : Option SendRun :=
  (settledInput state.connection.worker exchange).bind fun input ↦
    (connectionStep state.connection input).bind fun connection ↦
      (iterate state.connection.worker input).bind fun (_, effects) ↦
        (transmittedBy exchange.calls exchange.contents exchange.fuel effects).map fun text ↦
          { connection := connection
            stream := state.stream ++ text
            awaited := state.awaited ++
              ((answeredRequest state.connection.worker exchange.input).map fun (ret, request) ↦
                (decide (request.cmd = .headCmd),
                  wantedBody exchange.contents exchange.input ret request)).toList }

/-- The calls deliver what the iteration sends. -/
def Delivers (state : SendRun) (exchange : Exchange) : Prop :=
  ∀ input ∈ settledInput state.connection.worker exchange,
    ∀ ended ∈ iterate state.connection.worker input,
      ∀ effect ∈ ended.2, EffectFits exchange.calls exchange.contents effect

/-- Only what is known of the client is settled. -/
theorem exists_of_settledInput {worker : Worker} {exchange : Exchange} {input : IterationInput}
    (hsettled : settledInput worker exchange = some input) :
    ∃ gone, input = { exchange.input with clientGone := gone } := by
  unfold settledInput at hsettled
  split at hsettled
  · split_ifs at hsettled
    · obtain ⟨image, -, rfl⟩ := Option.map_eq_some_iff.mp hsettled
      exact ⟨_, rfl⟩
    · exact ⟨_, (Option.some_inj.mp hsettled).symm⟩
  · exact ⟨_, (Option.some_inj.mp hsettled).symm⟩

/-- An iteration whose calls deliver what it sends is one that sends it. -/
theorem sendStep_of_exchangeStep {state state' : SendRun} {exchange : Exchange}
    (hdelivers : Delivers state exchange) (hstep : exchangeStep state exchange = some state') :
    ∃ gone, sendStep state
      (exchange.contents, { exchange.input with clientGone := gone }) = some state' := by
  obtain ⟨input, hsettled, hstep⟩ := Option.bind_eq_some_iff.mp hstep
  obtain ⟨connection, hconnection, hstep⟩ := Option.bind_eq_some_iff.mp hstep
  obtain ⟨⟨worker, effects⟩, hiterate, hstep⟩ := Option.bind_eq_some_iff.mp hstep
  obtain ⟨text, htext, rfl⟩ := Option.map_eq_some_iff.mp hstep
  have hsent := transmitted_of_fits (hdelivers input hsettled _ hiterate) htext
  obtain ⟨gone, rfl⟩ := exists_of_settledInput hsettled
  refine ⟨gone, ?_⟩
  rw [sendStep, hconnection, Option.bind_some, hiterate, Option.bind_some]
  dsimp only
  rw [hsent]
  rfl

/-- An answer that is delivered is framed like the one that is sent. -/
theorem framing_exchange (state : SendRun) (exchange : Exchange) (state' : SendRun)
    (hframing : Framing state)
    (hguard : InSync state (exchange.contents, exchange.input) ∧ Delivers state exchange)
    (hstep : exchangeStep state exchange = some state') : Framing state' := by
  obtain ⟨gone, hsend⟩ := sendStep_of_exchangeStep hguard.2 hstep
  -- What is known of the client does not matter for the answer.
  have hsync : InSync state
      (exchange.contents, { exchange.input with clientGone := gone }) := hguard.1
  exact framing_step state _ state' hframing hsync hsend

/-- The client of a connection whose answers are delivered call by call reads the bodies that its
requests call for, and nothing is left over. -/
theorem readAnswers_of_exchanges {worker : Worker} {connSd : Descriptor} {clientAddr : SockaddrIn}
    {exchanges : List Exchange} {final : SendRun}
    (hguard : Guarded exchangeStep
      (fun state exchange ↦
        InSync state (exchange.contents, exchange.input) ∧ Delivers state exchange)
      (startSending worker connSd clientAddr) exchanges)
    (hrun : run exchangeStep (startSending worker connSd clientAddr) exchanges = some final) :
    readAnswers (final.awaited.map Prod.fst) final.stream =
      some (final.awaited.map Prod.snd, []) :=
  readAnswers_of_framing <|
    invariant_of_guarded framing_exchange (framing_startSending worker connSd clientAddr) hguard
      hrun

/-! ### A page and a photo -/

/-- A photo and an icon of one byte each, and pages of one byte. -/
def smallContents : Contents where
  adapted := [1]
  icon := [2]
  pages := ⟨[3], [4]⟩

/-- Calls that accept what they are asked for. In place of the missing value there is the length of
a page. -/
def wholeCalls : Calls where
  send := sendAll
  write := sendAll
  sendfile := fun _ ↦ allOfFile 1
  missing := 2
  msg := stackBytes
  msg_length := length_stackBytes

theorem headerFits_wholeCalls {fileSize : ℕ} {image : Bool} {msgError : List Byte}
    (hsome : 0 < (buildMessage fileSize image msgError).length) :
    HeaderFits wholeCalls (buildMessage fileSize image msgError) := by
  have hsends : PartialSends wholeCalls.send :=
    fun _ _ count ↦ ⟨count, rfl, le_rfl, fun hcount ↦ hcount⟩
  exact headerFits_of_whole hsends (zero_notMem_buildMessage _ _ _) hsome rfl

/-- Whatever is sent of the small contents, these calls deliver it. -/
theorem effectFits_wholeCalls (effect : Effect) : EffectFits wholeCalls smallContents effect := by
  have hpage : ∀ byte : Byte, byte ≠ 0 → PageFits wholeCalls [byte] := by
    intro byte hbyte
    have hsize : pageLength [byte] < 2 ^ 63 := by
      rw [pageLength, untilNul_of_notMem (by simpa using hbyte.symm)]
      norm_num
    have hheader := (length_buildMessage_page hsize).1
    exact pageFits_of_whole hsize (headerFits_wholeCalls hheader) rfl
  have himage : ∀ byte : Byte, ImageFits wholeCalls [byte] := by
    intro byte
    have hheader := (length_buildMessage_image (by norm_num : [byte].length < 2 ^ 63) []).1
    exact ⟨by norm_num, headerFits_wholeCalls hheader, partialTransfers_allOfFile 1⟩
  cases effect with
  | sendServiceUnavailable connSd => exact hpage 4 (by decide)
  | sendBadRequest connSd => exact hpage 3 (by decide)
  | sendImage connSd sent cmd =>
    cases sent with
    | adapted => exact himage 1
    | icon => exact himage 2
    | none => trivial
  | _ => trivial

/-- A request for the photo with its calls. -/
def photoExchange : Exchange where
  contents := smallContents
  input := servedPhoto
  calls := wholeCalls
  fuel := 4

/-- A request without the question mark, which is answered by a page. -/
def badExchange : Exchange where
  contents := smallContents
  input :=
    { servedPhoto with
      received := [.data (bytes "GET /photo.jpg HTTP/1.1\r\n" ++
        bytes "User-Agent: browser\r\nAccept: image/*\r\nConnection: close\r\n\r\n")] }
  calls := wholeCalls
  fuel := 4

/-- The exchanges of a client that forgets the question mark at first. -/
def photoExchanges : List Exchange :=
  [badExchange, photoExchange]

/-- The page and the photo, on a connection that is kept. -/
theorem readAnswers_photoExchanges :
    ∃ final, run exchangeStep (startSending ⟨allocatedThread, 0⟩ 4 (0, 0)) photoExchanges =
        some final ∧
      readAnswers [false, false] final.stream = some ([[3, 0], [1]], []) := by
  have hawaited : (run exchangeStep (startSending ⟨allocatedThread, 0⟩ 4 (0, 0))
      photoExchanges).map SendRun.awaited = some [(false, [3, 0]), (false, [1])] := by
    decide +kernel
  obtain ⟨final, hrun, hfinal⟩ := Option.map_eq_some_iff.mp hawaited
  have hsync : Guarded exchangeStep
      (fun state exchange ↦ InSync state (exchange.contents, exchange.input))
      (startSending ⟨allocatedThread, 0⟩ 4 (0, 0)) photoExchanges := by
    decide +kernel
  have hdelivers : ∀ exchange ∈ photoExchanges,
      exchange.calls = wholeCalls ∧ exchange.contents = smallContents := by
    simp [photoExchanges, badExchange, photoExchange]
  have hread := readAnswers_of_exchanges (guarded_mono (fun state exchange hmem hinSync ↦ ?_) hsync)
    hrun
  · rw [hfinal] at hread
    exact ⟨final, hrun, hread⟩
  · refine ⟨hinSync, fun _ _ _ _ effect _ ↦ ?_⟩
    rw [(hdelivers exchange hmem).1, (hdelivers exchange hmem).2]
    exact effectFits_wholeCalls effect

end ImageApp.Responses
