import ImageApp.Responses.AnswerStream
import ImageApp.Responses.CachedServer

/-!
# Workers and their clients

Workers that serve one connection after the other, and the clients of these connections. What a
worker sends goes to the client whose connection has the descriptor of the worker's slot, which need
not be the one that the worker was given: after an image that is not present the worker goes on with
a descriptor that is closed and may be used again.

A worker finds out what image there is from the caches, which are not part of this module. Its
answer is compared with the one of a server without caches, `plainVisit`: when it sends the same
bytes, the iteration is one of `sendStep` (`sendStep_of_connectionStep`).
-/

set_option autoImplicit false
set_option relaxedAutoImplicit false

namespace ImageApp.Responses

open Foundations.CStrings Foundations.DecimalPrefixes Foundations.HeaderBlocks Connections Server
  Cache Queries Requests

variable {ι : Type*}

/-- What an iteration gets from outside, with the descriptor that the system gives out for a cache
file unless it refuses, and what lies behind the digits of the quality on the heap. Whether the
image is present is found out by the iteration itself. -/
structure Turn where
  input : IterationInput
  opened : Option ℤ
  beyond : List Byte

/-- The client whose connection has a descriptor: whether the descriptor is open, what was sent, and
the answers that the client waits for, as in `SendRun`. -/
structure Client where
  isOpen : Bool
  stream : List Byte
  awaited : List (Bool × List Byte)

/-- The workers, and the clients at their descriptors. -/
structure Sessions (ι : Type*) where
  workers : ι → ConnectionRun
  clients : Descriptor → Client

namespace Sessions

variable (sessions : Sessions ι) (i : ι)

/-- The descriptor in the slot of a worker. -/
def connSd : Descriptor :=
  (sessions.workers i).worker.td.connSd

/-- A worker with the client at the descriptor of its slot. -/
def sending : SendRun where
  connection := sessions.workers i
  stream := (sessions.clients (sessions.connSd i)).stream
  awaited := (sessions.clients (sessions.connSd i)).awaited

end Sessions

/-! ### An iteration -/

/-- The message that an iteration parses. -/
def parsedMessage (worker : Worker) (input : IterationInput) : Option (List Byte) :=
  match receiveRequest worker.nextMessage input.received with
  | .returned .requestReceived message [] =>
    if worker.td.request = 0 then none else some message
  | _ => none

theorem parsedMessage_eq_some {worker : Worker} {input : IterationInput} {message : List Byte}
    (hmessage : parsedMessage worker input = some message) :
    receiveRequest worker.nextMessage input.received = .returned .requestReceived message [] ∧
      worker.td.request ≠ 0 := by
  unfold parsedMessage at hmessage
  split at hmessage
  · rename_i parsed hreceive
    split_ifs at hmessage with hspent
    rw [Option.some.injEq] at hmessage
    exact ⟨hmessage ▸ hreceive, hspent⟩
  · cases hmessage

/-- The image that an answer has. -/
def contentOf : ImageAnswer → Option (List Byte)
  | .content _ text => some text
  | .notPresent | .ended => none

/-- An iteration closes the connection of its worker. -/
def closesDescriptor (worker : Worker) (input : IterationInput) : Bool :=
  (iterate worker input).any fun (_, effects) ↦ .close worker.td.connSd ∈ effects

section Serve

variable {Wand : Type*} (arith : Arithmetic) (strtof : List Byte → ℚ × Bool)
  (magick : MagickWand Wand) (db : List Byte → Option DeviceRow) (icon : List Byte) (pages : Pages)

/-- A visit of a worker for which an image with this content is there, or no image. -/
def visitWith (input : IterationInput) (content : Option (List Byte)) : Contents × IterationInput :=
  (⟨content.getD [], icon, pages⟩, { input with imagePresent := content.isSome })

/-- The content of the image that a message asks for, adapted from its source. -/
def plainContent (files : List Byte → Option (List Byte)) (message : List Byte) :
    Option (List Byte) :=
  (wishOf arith strtof message).bind fun
    | .image wish => (adaptedContent arith magick files (wish.askedImage arith db)).join
    | .icon | .notCorrect => none

/-- The visit of a worker of a server without caches. -/
def plainVisit (files : List Byte → Option (List Byte)) (worker : Worker) (input : IterationInput) :
    Contents × IterationInput :=
  visitWith icon pages input
    ((parsedMessage worker input).bind (plainContent arith strtof magick db files))

/-- What the client of a worker waits for: the bodies that a server without caches sends. -/
def awaitedAfter (files : List Byte → Option (List Byte)) (worker : Worker)
    (input : IterationInput) : List (Bool × List Byte) :=
  let visit := plainVisit arith strtof magick db icon pages files worker input
  ((answeredRequest worker input).map fun (ret, request) ↦
    (decide (request.cmd = .headCmd), wantedBody visit.1 visit.2 ret request)).toList

variable {arith strtof magick db icon pages} {files : List Byte → Option (List Byte)}

/-- A right answer has the image that is adapted from its source. -/
theorem contentOf_of_answerRight {request : ImageRequest} {answer : ImageAnswer}
    (hright : AnswerRight arith magick files request answer) (hgoes : answer ≠ .ended) :
    contentOf answer = (adaptedContent arith magick files request.image).join := by
  cases answer with
  | content fileSize text => rw [hright.1, contentOf, Option.join_some]
  | notPresent =>
    rw [AnswerRight] at hright
    rw [hright, contentOf, Option.join_none]
  | ended => exact absurd rfl hgoes

/-- A message that is parsed as a request for an image means an image, for the same method. -/
theorem exists_image_of_wishOf {message : List Byte} {request : ParsedRequest} {meaning : Wish}
    (hparse : parseRequest message = some (.requestReceived, request))
    (hmeaning : wishOf arith strtof message = some meaning) :
    ∃ wish, meaning = .image wish ∧ wish.cmd = request.cmd := by
  rw [wishOf, hparse, Option.bind_some] at hmeaning
  dsimp only at hmeaning
  rw [if_pos rfl] at hmeaning
  obtain ⟨ext, -, hmeaning⟩ := Option.bind_eq_some_iff.mp hmeaning
  obtain ⟨userAgent, -, hmeaning⟩ := Option.bind_eq_some_iff.mp hmeaning
  obtain ⟨⟨quality, extension⟩, -, hmeaning⟩ := Option.bind_eq_some_iff.mp hmeaning
  split_ifs at hmeaning
  exact ⟨_, (Option.some_inj.mp hmeaning).symm, rfl⟩

/-- What a server without caches sends for a message is the answer of a worker that has adapted the
image. -/
theorem answerText_eq_plainResponse {message text : List Byte} {ret : RqstStat}
    {request : ParsedRequest} (hparse : parseRequest message = some (ret, request))
    (hplain : plainResponse arith strtof magick db icon pages files message = some text)
    (input : IterationInput) :
    let visit := visitWith icon pages input (plainContent arith strtof magick db files message)
    answerText visit.1 visit.2 ret request = text := by
  obtain ⟨meaning, hmeaning, hplain⟩ := Option.bind_eq_some_iff.mp hplain
  obtain ⟨-, -, -, hret⟩ := parseRequest_cases hparse
  rw [plainContent, hmeaning, Option.bind_some]
  rcases hret with rfl | rfl | rfl
  · obtain ⟨wish, rfl, hcmd⟩ := exists_image_of_wishOf hparse hmeaning
    dsimp only at hplain ⊢
    rcases hadapted : adaptedContent arith magick files (wish.askedImage arith db) with
      _ | _ | content
    · rw [hadapted] at hplain
      exact Option.some_inj.mp hplain
    · rw [hadapted] at hplain
      cases hplain
    · rw [hadapted, hcmd] at hplain
      exact Option.some_inj.mp hplain
  · rw [wishOf, hparse, Option.bind_some] at hmeaning
    cases hmeaning
    exact Option.some_inj.mp hplain
  · rw [wishOf, hparse, Option.bind_some] at hmeaning
    cases hmeaning
    exact Option.some_inj.mp hplain

theorem exists_iterate {state connection : ConnectionRun} {input : IterationInput}
    (hstep : connectionStep state input = some connection) :
    ∃ worker effects, iterate state.worker input = some (worker, effects) := by
  rw [connectionStep] at hstep
  by_cases hopen : state.worker.td.msgReceived = 1
  · rw [if_pos hopen] at hstep
    obtain ⟨⟨worker, effects⟩, hiterate, -⟩ := Option.map_eq_some_iff.mp hstep
    exact ⟨worker, effects, hiterate⟩
  · rw [if_neg hopen] at hstep
    cases hstep

/-- An iteration that parses a message answers it, and the client waits for the body. -/
theorem sendStep_of_connectionStep {state : SendRun} {input : IterationInput}
    {message text : List Byte}
    (hmessage : parsedMessage state.connection.worker input = some message)
    (hplain : plainResponse arith strtof magick db icon pages files message = some text)
    {connection : ConnectionRun}
    (hconnection : connectionStep state.connection
      (visitWith icon pages input (plainContent arith strtof magick db files message)).2 =
        some connection) :
    sendStep state (plainVisit arith strtof magick db icon pages files state.connection.worker
        input) =
      some
        { connection := connection
          stream := state.stream ++ text
          awaited := state.awaited ++
            awaitedAfter arith strtof magick db icon pages files state.connection.worker
              input } := by
  have hvisit : plainVisit arith strtof magick db icon pages files state.connection.worker input =
      visitWith icon pages input (plainContent arith strtof magick db files message) := by
    rw [plainVisit, hmessage, Option.bind_some]
  obtain ⟨hreceive, hleft⟩ := parsedMessage_eq_some hmessage
  obtain ⟨worker, effects, hiterate⟩ := exists_iterate hconnection
  obtain ⟨answer, htransmitted, hanswered⟩ := @answered_of_iterate
    (visitWith icon pages input (plainContent arith strtof magick db files message)).1 _ _ _ _
      hiterate
  have hanswer : answer = text := by
    cases hanswered with
    | spent _ hspent => exact absurd hspent hleft
    | gone hempty =>
      rw [show (visitWith icon pages input
        (plainContent arith strtof magick db files message)).2.received = input.received from rfl,
        hreceive] at hempty
      cases hempty
    | parsed hother _ hparse =>
      rw [show (visitWith icon pages input
        (plainContent arith strtof magick db files message)).2.received = input.received from rfl,
        hreceive] at hother
      cases hother
      exact answerText_eq_plainResponse hparse hplain input
  rw [awaitedAfter, sendStep, hvisit, hconnection, Option.bind_some, hiterate, Option.bind_some]
  dsimp only
  rw [htransmitted, hanswer]
  rfl

end Serve

/-! ### The clients -/

/-- What was sent to a client is framed answers with the bodies that it waits for. -/
def Client.Framed (client : Client) : Prop :=
  ∀ connection, Framing ⟨connection, client.stream, client.awaited⟩

theorem framed_new (isOpen : Bool) : Client.Framed ⟨isOpen, [], []⟩ :=
  fun _ ↦ ⟨[], fun _ hmem ↦ absurd hmem List.not_mem_nil, rfl, rfl⟩

/-- One client at a time changes. -/
theorem framed_update {clients : Descriptor → Client} (hframed : ∀ connSd, (clients connSd).Framed)
    {changed : Descriptor} {client : Client} (hclient : client.Framed) (connSd : Descriptor) :
    (Function.update clients changed client connSd).Framed := by
  rcases eq_or_ne connSd changed with rfl | hne
  · rw [Function.update_self]
    exact hclient
  · rw [Function.update_of_ne hne]
    exact hframed connSd

namespace Sessions

variable [DecidableEq ι] (sessions : Sessions ι) (i : ι)

/-- The workers and the clients after an iteration. What is sent on a closed descriptor is lost. -/
def settle (input : IterationInput) (next : SendRun) : Sessions ι where
  workers := Function.update sessions.workers i next.connection
  clients :=
    let client := sessions.clients (sessions.connSd i)
    Function.update sessions.clients (sessions.connSd i) <|
      if client.isOpen then
        { isOpen := !closesDescriptor (sessions.workers i).worker input
          stream := next.stream
          awaited := next.awaited }
      else client

/-- The machine after an iteration, which may close the descriptor of a cache file. -/
def machineAfter (input : IterationInput) (machine : Machine) : Machine :=
  if closesDescriptor (sessions.workers i).worker input then
    { machine with descriptors := machine.descriptors.erase (sessions.connSd i).val }
  else machine

/-- A worker is given a new connection. -/
def assign (connSd : Descriptor) (clientAddr : SockaddrIn) : Sessions ι where
  workers := Function.update sessions.workers i
    (dispatched (sessions.workers i).worker connSd clientAddr)
  clients := Function.update sessions.clients connSd ⟨true, [], []⟩

/-- All clients are sent framed answers. -/
def Framed : Prop :=
  ∀ connSd, (sessions.clients connSd).Framed

variable {sessions i}

omit [DecidableEq ι] in
theorem machineAfter_eq {input : IterationInput} {machine : Machine}
    (hcloses : closesDescriptor (sessions.workers i).worker input = true →
      ((sessions.connSd i).val : ℤ) ∉ machine.descriptors) :
    sessions.machineAfter i input machine = machine := by
  rw [machineAfter]
  split_ifs with hclosed
  · rw [Finset.erase_eq_of_notMem (hcloses hclosed)]
  · rfl

/-- The client at the descriptor of the worker is sent what the iteration sends. -/
theorem awaited_settle (input : IterationInput) (next : SendRun)
    (hopen : (sessions.clients (sessions.connSd i)).isOpen = true) :
    ((sessions.settle i input next).clients (sessions.connSd i)).awaited = next.awaited := by
  rw [settle]
  dsimp only
  rw [Function.update_self, if_pos hopen]

/-- The other workers are left alone. -/
theorem workers_settle_of_ne (input : IterationInput) (next : SendRun) {other : ι}
    (hne : other ≠ i) : (sessions.settle i input next).workers other = sessions.workers other :=
  Function.update_of_ne hne _ _

/-- The other clients are left alone. -/
theorem clients_settle_of_ne (input : IterationInput) (next : SendRun) {connSd : Descriptor}
    (hne : connSd ≠ sessions.connSd i) :
    (sessions.settle i input next).clients connSd = sessions.clients connSd :=
  Function.update_of_ne hne _ _

/-- An iteration that its client is in step with sends a framed answer. -/
theorem framed_settle (hframed : sessions.Framed) {visit : Contents × IterationInput}
    {next : SendRun} (hsync : InSync (sessions.sending i) visit)
    (hsend : sendStep (sessions.sending i) visit = some next) (input : IterationInput) :
    (sessions.settle i input next).Framed := by
  refine framed_update hframed ?_
  split_ifs
  · exact fun _ ↦ framing_step _ visit next (hframed _ _) hsync hsend
  · exact hframed _

theorem framed_assign (hframed : sessions.Framed) (connSd : Descriptor)
    (clientAddr : SockaddrIn) : (sessions.assign i connSd clientAddr).Framed :=
  framed_update hframed (framed_new true)

end Sessions

/-- The workers before their first connection. -/
def startSessions : Sessions ι where
  workers := fun _ ↦ ⟨⟨allocatedThread, 0⟩, 0⟩
  clients := fun _ ↦ ⟨false, [], []⟩

theorem framed_startSessions : (startSessions : Sessions ι).Framed :=
  fun _ ↦ framed_new false

end ImageApp.Responses
