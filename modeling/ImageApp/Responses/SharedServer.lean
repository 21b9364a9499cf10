import ImageApp.Responses.Sessions

/-!
# Workers with the same caches

All workers of all pools share the cache of queries and the cache of images, and each serves one
connection after the other. A turn of a worker is an iteration of `handle_client` as a whole: it
receives a message, the caches give the dimensions and the image, and the answer is sent. The turns
of different workers come in any order.

`sendStep_of_sharedStep` is what one turn does: the caches stay coherent, and for the client at its
descriptor the worker does what a server without caches does. So every client reads the bodies that
such a server sends for its requests, and nothing of what is sent to others
(`readAnswers_of_workers`).
-/

set_option autoImplicit false
set_option relaxedAutoImplicit false

namespace ImageApp.Responses

open Foundations.CStrings Foundations.DecimalPrefixes Foundations.GuardedRuns
  Foundations.HeaderBlocks Connections Server Cache Queries Requests

variable {ι : Type*}

/-- The workers and their clients with the caches. -/
structure SharedServer (ι : Type*) extends Sessions ι where
  caches : CachedServer

/-- A turn of a worker, or a new connection for a worker. -/
inductive SharedAction (ι : Type*)
  | turn (worker : ι) (turn : Turn)
  | assign (worker : ι) (connSd : Descriptor) (clientAddr : SockaddrIn)

section Serve

variable {Wand : Type*} (arith : Arithmetic) (strtof : List Byte → ℚ × Bool)
  (magick : MagickWand Wand) (db : List Byte → Option DeviceRow) (icon : List Byte) (pages : Pages)

/-- The content of the image that a message asks for, after the caches have answered. -/
def foundContent (message : List Byte) (caches : CachedServer) : Option (List Byte) :=
  (wishOf arith strtof message).bind fun
    | .image _ => (caches.images.answers.getLast?.map Prod.snd).bind contentOf
    | .icon | .notCorrect => none

/-- The server after an iteration of a worker. -/
def SharedServer.settle [DecidableEq ι] (server : SharedServer ι) (i : ι) (input : IterationInput)
    (next : SendRun) : SharedServer ι where
  toSessions := server.toSessions.settle i input next
  caches :=
    { server.caches with
      images :=
        { server.caches.images with
          machine := server.machineAfter i input server.caches.images.machine } }

/-- The descriptor is open, for a client or for a file. -/
def SharedServer.hasOpen (server : SharedServer ι) (connSd : Descriptor) : Prop :=
  (server.clients connSd).isOpen = true ∨
    (connSd.val : ℤ) ∈ server.caches.images.machine.descriptors

instance decidableHasOpen (server : SharedServer ι) (connSd : Descriptor) :
    Decidable (server.hasOpen connSd) :=
  inferInstanceAs (Decidable (_ ∨ _))

/-- A turn of a worker, or a new connection: it has a descriptor that is not open, and is given to a
worker that is not in use. A closed descriptor gives no message, and nothing happens any more once
the program has ended. -/
def sharedStep [DecidableEq ι] (files : List Byte → Option (List Byte)) (server : SharedServer ι) :
    SharedAction ι → Option (SharedServer ι)
  | .turn i turn =>
    let worker := (server.workers i).worker
    if server.caches.images.ended then some server
    else
      match parsedMessage worker turn.input with
      | none =>
        let visit := visitWith icon pages turn.input none
        (sendStep (server.sending i) visit).map (server.settle i visit.2)
      | some message =>
        if (server.clients (server.connSd i)).isOpen then
          (serveVisit arith strtof magick db icon pages server.caches
              ⟨message, turn.opened, turn.beyond⟩).bind fun caches ↦
            if caches.images.ended then some { server with caches := caches }
            else
              let found := foundContent arith strtof message caches
              let visit := visitWith icon pages turn.input found
              (connectionStep (server.workers i) visit.2).map fun connection ↦
                { server with caches := caches }.settle i visit.2
                  { connection := connection
                    stream := (server.sending i).stream ++ caches.responses.getLast?.getD []
                    awaited := (server.sending i).awaited ++
                      awaitedAfter arith strtof magick db icon pages files worker turn.input }
        else none
  | .assign i connSd clientAddr =>
    if (server.workers i).worker.td.used = -1 ∧ ¬ server.hasOpen connSd then
      some { server with toSessions := server.toSessions.assign i connSd clientAddr }
    else none

/-- The server at its start, without clients. -/
def startSharedServer (files : List Byte → Option (List Byte)) (descriptors : Finset ℤ) :
    SharedServer ι where
  toSessions := startSessions
  caches := startCachedServer files descriptors

variable {arith strtof magick db icon pages} {files : List Byte → Option (List Byte)}
  {visits : List Visit}

/-! ### The caches do not show -/

/-- When the caches have answered a visit and the program goes on, the image is the adapted one, and
what is sent is what a server without caches sends. -/
theorem answered_of_serveVisit (hservable : Servable arith strtof magick db files visits)
    {server caches : CachedServer} (hcoherent : Coherent arith strtof magick db files visits server)
    (hrunning : server.images.ended = false) {visit : Visit} (hvisit : visit ∈ visits)
    (hunused : OpensUnused server visit)
    (hserve : serveVisit arith strtof magick db icon pages server visit = some caches) :
    Coherent arith strtof magick db files visits caches ∧
      (caches.images.ended = false →
        foundContent arith strtof visit.message caches =
            plainContent arith strtof magick db files visit.message ∧
          plainResponse arith strtof magick db icon pages files visit.message =
            some (caches.responses.getLast?.getD [])) := by
  obtain ⟨after, hafter, hcoherent', hanswered⟩ := @Coherent.step _ _ _ _ _ icon pages _ _ _
    hservable hcoherent hrunning _ hvisit hunused
  obtain rfl : caches = after := Option.some_inj.mp (hserve.symm.trans hafter)
  refine ⟨hcoherent', fun hgoesOn ↦ ⟨?_, ?_⟩⟩
  · cases hwish : wishOf arith strtof visit.message with
    | none => rw [foundContent, plainContent, hwish, Option.bind_none, Option.bind_none]
    | some meaning =>
      cases meaning with
      | icon | notCorrect =>
        rw [foundContent, plainContent, hwish, Option.bind_some, Option.bind_some]
      | image wish =>
        obtain ⟨other, answer, hother, -, hlast, hended, -, hright⟩ :=
          @Coherent.serve_image _ _ _ _ _ icon pages _ _ _ hservable hcoherent hrunning _ hvisit
            hunused _ hwish
        obtain rfl : caches = other := Option.some_inj.mp (hserve.symm.trans hother)
        have hgoes : answer ≠ .ended := by
          rw [← hended.ne, hgoesOn]
          exact Bool.false_ne_true
        have himage : wish.askedImage arith db = (wish.request arith visit
            (dimensionsOf (db (deviceQuery wish.userAgent)))).image :=
          (wish.image_eq arith visit.beyond _).symm
        rw [foundContent, plainContent, hwish, Option.bind_some, Option.bind_some]
        dsimp only
        rw [hlast, Option.bind_some, contentOf_of_answerRight hright hgoes, himage]
  · rw [VisitAnswered, hgoesOn, if_neg Bool.false_ne_true] at hanswered
    obtain ⟨text, hplain, hresponses⟩ := hanswered
    rw [hplain, hresponses, List.getLast?_concat]
    rfl

/-! ### Turns -/

/-- The caches are coherent, and all clients are sent framed answers. -/
structure AllFramed (arith : Arithmetic) (strtof : List Byte → ℚ × Bool) (magick : MagickWand Wand)
    (db : List Byte → Option DeviceRow) (files : List Byte → Option (List Byte))
    (visits : List Visit) (server : SharedServer ι) : Prop where
  coherent : Coherent arith strtof magick db files visits server.caches
  framed : server.Framed

theorem allFramed_start (descriptors : Finset ℤ) :
    AllFramed arith strtof magick db files visits
      (startSharedServer files descriptors : SharedServer ι) where
  coherent := coherent_startCachedServer descriptors
  framed := framed_startSessions

variable [DecidableEq ι]

/-- The client of a worker is in step with what a server without caches sends, and the visit of its
message is one of those that are served, for which the system gives out an unused descriptor. The
worker does not close the descriptor of a cache file. -/
structure TurnFits (arith : Arithmetic) (strtof : List Byte → ℚ × Bool) (magick : MagickWand Wand)
    (db : List Byte → Option DeviceRow) (icon : List Byte) (pages : Pages)
    (files : List Byte → Option (List Byte)) (visits : List Visit) (server : SharedServer ι) (i : ι)
    (turn : Turn) : Prop where
  inSync : InSync (server.sending i)
    (plainVisit arith strtof magick db icon pages files (server.workers i).worker turn.input)
  served : ∀ message ∈ parsedMessage (server.workers i).worker turn.input,
    ⟨message, turn.opened, turn.beyond⟩ ∈ visits ∧
      OpensUnused server.caches ⟨message, turn.opened, turn.beyond⟩
  unused : ∀ connSd, (server.clients connSd).isOpen = true → (connSd.val : ℤ) ∉ turn.opened
  closes : closesDescriptor (server.workers i).worker
      (plainVisit arith strtof magick db icon pages files (server.workers i).worker
        turn.input).2 = true →
    ((server.connSd i).val : ℤ) ∉ server.caches.images.machine.descriptors

/-- The condition on an action. -/
def ActionFits (arith : Arithmetic) (strtof : List Byte → ℚ × Bool) (magick : MagickWand Wand)
    (db : List Byte → Option DeviceRow) (icon : List Byte) (pages : Pages)
    (files : List Byte → Option (List Byte)) (visits : List Visit) (server : SharedServer ι) :
    SharedAction ι → Prop
  | .turn i turn => TurnFits arith strtof magick db icon pages files visits server i turn
  | .assign _ _ _ => True

omit [DecidableEq ι] in
/-- Closing the descriptor of a client leaves the caches alone. -/
theorem SharedServer.settle_caches [DecidableEq ι] {server : SharedServer ι} {i : ι}
    {input : IterationInput} {next : SendRun}
    (hcloses : closesDescriptor (server.workers i).worker input = true →
      ((server.connSd i).val : ℤ) ∉ server.caches.images.machine.descriptors) :
    (server.settle i input next).caches = server.caches := by
  rw [settle]
  dsimp only
  rw [Sessions.machineAfter_eq hcloses]

/-- A turn keeps the caches coherent. Its worker does what a server without caches does for the
client at its descriptor, unless the program has ended, and the other clients are left alone. -/
theorem sendStep_of_sharedStep (hservable : Servable arith strtof magick db files visits)
    {server server' : SharedServer ι}
    (hcoherent : Coherent arith strtof magick db files visits server.caches) {i : ι} {turn : Turn}
    (hfits : TurnFits arith strtof magick db icon pages files visits server i turn)
    (hstep : sharedStep arith strtof magick db icon pages files server (.turn i turn) =
      some server') :
    Coherent arith strtof magick db files visits server'.caches ∧
      (server'.toSessions = server.toSessions ∨
        ∃ next input, sendStep (server.sending i)
            (plainVisit arith strtof magick db icon pages files (server.workers i).worker
              turn.input) = some next ∧
          server'.toSessions = server.toSessions.settle i input next) := by
  rw [sharedStep] at hstep
  cases hended : server.caches.images.ended with
  | true =>
    rw [hended, if_pos rfl, Option.some.injEq] at hstep
    exact hstep ▸ ⟨hcoherent, Or.inl rfl⟩
  | false =>
    rw [hended, if_neg Bool.false_ne_true] at hstep
    cases hmessage : parsedMessage (server.workers i).worker turn.input with
    | none =>
      rw [hmessage] at hstep
      obtain ⟨next, hsend, rfl⟩ := Option.map_eq_some_iff.mp hstep
      have hvisit : plainVisit arith strtof magick db icon pages files (server.workers i).worker
          turn.input = visitWith icon pages turn.input none := by
        rw [plainVisit, hmessage, Option.bind_none]
      have hcaches := @SharedServer.settle_caches ι _ server i
        (visitWith icon pages turn.input none).2 next (hvisit ▸ hfits.closes)
      exact ⟨hcaches ▸ hcoherent, Or.inr ⟨next, _, hvisit ▸ hsend, rfl⟩⟩
    | some message =>
      rw [hmessage] at hstep
      dsimp only at hstep
      split_ifs at hstep with hopen
      obtain ⟨caches, hserve, hstep⟩ := Option.bind_eq_some_iff.mp hstep
      obtain ⟨hvisit, hunused⟩ := hfits.served message hmessage
      obtain ⟨hcoherent', hanswered⟩ :=
        answered_of_serveVisit hservable hcoherent hended hvisit hunused hserve
      cases hlast : caches.images.ended with
      | true =>
        rw [hlast, if_pos rfl, Option.some.injEq] at hstep
        exact hstep ▸ ⟨hcoherent', Or.inl rfl⟩
      | false =>
        rw [hlast, if_neg Bool.false_ne_true] at hstep
        obtain ⟨connection, hconnection, rfl⟩ := Option.map_eq_some_iff.mp hstep
        obtain ⟨hfound, hplain⟩ := hanswered hlast
        have hplainVisit : plainVisit arith strtof magick db icon pages files
            (server.workers i).worker turn.input =
              visitWith icon pages turn.input (foundContent arith strtof message caches) := by
          rw [plainVisit, hmessage, Option.bind_some, hfound]
        have hcloses : closesDescriptor (server.workers i).worker
            (visitWith icon pages turn.input (foundContent arith strtof message caches)).2 = true →
            ((server.connSd i).val : ℤ) ∉ caches.images.machine.descriptors := by
          intro hclosed hmem
          rcases descriptors_serveVisit hserve hmem with hold | hnew
          · exact hfits.closes (hplainVisit ▸ hclosed) hold
          · exact hfits.unused _ hopen hnew
        have hcaches := @SharedServer.settle_caches ι _ { server with caches := caches } i _
          { connection := connection
            stream := (server.sending i).stream ++ caches.responses.getLast?.getD []
            awaited := (server.sending i).awaited ++
              awaitedAfter arith strtof magick db icon pages files (server.workers i).worker
                turn.input } hcloses
        rw [hfound] at hconnection
        have hsend := @sendStep_of_connectionStep _ arith strtof magick db icon pages files
          (server.sending i) _ _ _ hmessage hplain _ hconnection
        exact ⟨hcaches ▸ hcoherent', Or.inr ⟨_, _, hsend, rfl⟩⟩

/-- Every action keeps this. -/
theorem AllFramed.step (hservable : Servable arith strtof magick db files visits)
    (server : SharedServer ι) (action : SharedAction ι) (server' : SharedServer ι)
    (hframed : AllFramed arith strtof magick db files visits server)
    (hfits : ActionFits arith strtof magick db icon pages files visits server action)
    (hstep : sharedStep arith strtof magick db icon pages files server action = some server') :
    AllFramed arith strtof magick db files visits server' := by
  cases action with
  | turn i turn =>
    obtain ⟨hcoherent, hsame | ⟨next, input, hsend, hsettled⟩⟩ :=
      sendStep_of_sharedStep hservable hframed.coherent hfits hstep
    · exact ⟨hcoherent, hsame ▸ hframed.framed⟩
    · exact ⟨hcoherent, hsettled ▸ Sessions.framed_settle hframed.framed hfits.inSync hsend input⟩
  | assign i connSd clientAddr =>
    rw [sharedStep] at hstep
    split_ifs at hstep
    rw [Option.some.injEq] at hstep
    rw [← hstep]
    exact ⟨hframed.coherent, Sessions.framed_assign hframed.framed connSd clientAddr⟩

/-- A worker takes its turn on a message of its client. The client gets what a server without caches
sends, unless no file could be opened or written. -/
theorem exists_sharedStep (hservable : Servable arith strtof magick db files visits)
    {server : SharedServer ι}
    (hcoherent : Coherent arith strtof magick db files visits server.caches)
    (hrunning : server.caches.images.ended = false) {i : ι} {turn : Turn} {message : List Byte}
    (hmessage : parsedMessage (server.workers i).worker turn.input = some message)
    (hopen : (server.clients (server.connSd i)).isOpen = true)
    (hvisit : ⟨message, turn.opened, turn.beyond⟩ ∈ visits)
    (hunused : OpensUnused server.caches ⟨message, turn.opened, turn.beyond⟩)
    {connection : ConnectionRun}
    (hconnection : connectionStep (server.workers i)
      (plainVisit arith strtof magick db icon pages files (server.workers i).worker
        turn.input).2 = some connection) :
    ∃ server', sharedStep arith strtof magick db icon pages files server (.turn i turn) =
        some server' ∧
      (server'.toSessions = server.toSessions ∧ (turn.opened = none ∨
          plainResponse arith strtof magick db icon pages files message = none) ∨
        ∃ text next, plainResponse arith strtof magick db icon pages files message = some text ∧
          server'.caches.images.ended = false ∧ next.connection = connection ∧
          next.stream = (server.sending i).stream ++ text ∧
          next.awaited = (server.sending i).awaited ++
            awaitedAfter arith strtof magick db icon pages files (server.workers i).worker
              turn.input ∧
          server'.toSessions = server.toSessions.settle i
            (plainVisit arith strtof magick db icon pages files (server.workers i).worker
              turn.input).2 next) := by
  obtain ⟨caches, hserve, -, hvisited⟩ := @Coherent.step _ _ _ _ _ icon pages _ _ _ hservable
    hcoherent hrunning _ hvisit hunused
  obtain ⟨-, hanswered⟩ := answered_of_serveVisit hservable hcoherent hrunning hvisit hunused hserve
  rw [sharedStep, hrunning, if_neg Bool.false_ne_true, hmessage]
  dsimp only
  rw [if_pos hopen, hserve, Option.bind_some]
  cases hended : caches.images.ended with
  | true =>
    rw [VisitAnswered, hended, if_pos rfl] at hvisited
    rw [if_pos rfl]
    exact ⟨_, rfl, Or.inl ⟨rfl, hvisited.2⟩⟩
  | false =>
    obtain ⟨hfound, hplain⟩ := hanswered hended
    have hplainVisit : plainVisit arith strtof magick db icon pages files (server.workers i).worker
        turn.input =
          visitWith icon pages turn.input (foundContent arith strtof message caches) := by
      rw [plainVisit, hmessage, Option.bind_some, hfound]
    rw [hplainVisit] at hconnection ⊢
    rw [if_neg Bool.false_ne_true, hconnection, Option.map_some]
    exact ⟨_, rfl, Or.inr ⟨_, _, hplain, hended, rfl, rfl, rfl, rfl⟩⟩

end Serve

/-! ### Two workers -/

/-- A request for the page itself. -/
def servedIcon : IterationInput :=
  { servedPhoto with received := [.data iconText] }

/-- Two connections for two workers. -/
def photoAssignments : List (SharedAction Bool) :=
  [.assign false 5 (0, 0), .assign true 6 (0, 0)]

/-- The first worker is asked for the photo, and then the second one for the page. -/
def photoTurns : List (SharedAction Bool) :=
  [.turn false ⟨servedPhoto, some 3, []⟩, .turn true ⟨servedIcon, none, []⟩]

/-- The workers with their connections. -/
def twoWorkers : SharedServer Bool where
  toSessions := (startSessions.assign false 5 (0, 0)).assign true 6 (0, 0)
  caches := startCachedServer photoFiles {0, 1, 2}

theorem plainContent_photo :
    plainContent ieee decimalPrefix copyingWand (fun _ ↦ none) photoFiles photoRequest.slot =
      some (bytes "colors") := by
  rw [plainContent, wishOf_photo, Option.bind_some]
  decide +kernel

theorem plainResponse_photo :
    plainResponse ieee decimalPrefix copyingWand (fun _ ↦ none) (bytes "icon") htmlResponse
      photoFiles photoRequest.slot = some (Server.sendImage (bytes "colors") .getCmd) := by
  rw [plainResponse, wishOf_photo, Option.bind_some]
  decide +kernel

theorem plainContent_icon :
    plainContent ieee decimalPrefix copyingWand (fun _ ↦ none) photoFiles iconMessage = none := by
  rw [plainContent, wishOf_icon, Option.bind_some]

theorem parsedMessage_photo :
    parsedMessage (twoWorkers.workers false).worker servedPhoto = some photoRequest.slot := by
  decide +kernel

theorem parsedMessage_icon {server : SharedServer Bool}
    (hworker : server.workers true = twoWorkers.workers true) :
    parsedMessage (server.workers true).worker servedIcon = some iconMessage := by
  rw [hworker]
  decide +kernel

theorem plainVisit_photo :
    plainVisit ieee decimalPrefix copyingWand (fun _ ↦ none) (bytes "icon") htmlResponse photoFiles
        (twoWorkers.workers false).worker servedPhoto =
      visitWith (bytes "icon") htmlResponse servedPhoto (some (bytes "colors")) := by
  rw [plainVisit, parsedMessage_photo, Option.bind_some, plainContent_photo]

theorem plainVisit_icon {server : SharedServer Bool}
    (hworker : server.workers true = twoWorkers.workers true) :
    plainVisit ieee decimalPrefix copyingWand (fun _ ↦ none) (bytes "icon") htmlResponse photoFiles
        (server.workers true).worker servedIcon =
      visitWith (bytes "icon") htmlResponse servedIcon none := by
  rw [plainVisit, parsedMessage_icon hworker, Option.bind_some, plainContent_icon]

theorem turnFits_photo :
    TurnFits ieee decimalPrefix copyingWand (fun _ ↦ none) (bytes "icon") htmlResponse photoFiles
      photoVisits twoWorkers false ⟨servedPhoto, some 3, []⟩ where
  inSync := by
    rw [plainVisit_photo]
    decide +kernel
  served := by
    intro message hmessage
    rw [parsedMessage_photo] at hmessage
    obtain rfl := Option.some_inj.mp hmessage
    refine ⟨List.mem_cons_self, fun fd hfd ↦ ?_⟩
    obtain rfl : 3 = fd := Option.some_inj.mp hfd
    exact ⟨by decide, by decide⟩
  unused := by
    intro connSd hopen hmem
    have hvalue : 3 = (connSd.val : ℤ) := Option.some_inj.mp hmem
    have hclosed : (twoWorkers.clients 3).isOpen = false := by decide
    rw [show connSd = 3 from Fin.ext (Int.ofNat_inj.mp hvalue.symm), hclosed] at hopen
    cases hopen
  closes := by
    have hkeeps : closesDescriptor (twoWorkers.workers false).worker
        (visitWith (bytes "icon") htmlResponse servedPhoto (some (bytes "colors"))).2 = false := by
      decide +kernel
    rw [plainVisit_photo, hkeeps]
    intro hcloses
    cases hcloses

theorem turnFits_icon {server : SharedServer Bool}
    (hworker : server.workers true = twoWorkers.workers true) :
    TurnFits ieee decimalPrefix copyingWand (fun _ ↦ none) (bytes "icon") htmlResponse photoFiles
      photoVisits server true ⟨servedIcon, none, []⟩ where
  inSync := by
    have hsync : InSync (twoWorkers.sending true)
        (visitWith (bytes "icon") htmlResponse servedIcon none) := by decide +kernel
    rw [plainVisit_icon hworker, InSync, Sessions.sending, hworker]
    exact hsync
  served := by
    intro message hmessage
    rw [parsedMessage_icon hworker] at hmessage
    obtain rfl := Option.some_inj.mp hmessage
    exact ⟨by simp [photoVisits], by simp [OpensUnused]⟩
  unused := by simp
  closes := by
    have hkeeps : closesDescriptor (twoWorkers.workers true).worker
        (visitWith (bytes "icon") htmlResponse servedIcon none).2 = false := by decide +kernel
    rw [plainVisit_icon hworker, hworker, hkeeps]
    intro hcloses
    cases hcloses

/-- The first worker sends the photo to its client, and leaves the rest alone. -/
theorem exists_turn_photo :
    ∃ server, sharedStep ieee decimalPrefix copyingWand (fun _ ↦ none) (bytes "icon") htmlResponse
        photoFiles twoWorkers (.turn false ⟨servedPhoto, some 3, []⟩) = some server ∧
      server.caches.images.ended = false ∧ server.workers true = twoWorkers.workers true ∧
      server.clients 6 = twoWorkers.clients 6 ∧
      (server.clients 5).awaited = [(false, bytes "colors")] := by
  have hserves : ((connectionStep (twoWorkers.workers false)
      (visitWith (bytes "icon") htmlResponse servedPhoto (some (bytes "colors"))).2).isSome) =
        true := by
    decide +kernel
  obtain ⟨connection, hconnection⟩ := Option.isSome_iff_exists.mp hserves
  obtain ⟨hvisit, hunused⟩ := turnFits_photo.served _ parsedMessage_photo
  obtain ⟨server, hstep, hserver⟩ :=
    exists_sharedStep servable_photoVisits (coherent_startCachedServer {0, 1, 2}) rfl
      parsedMessage_photo (by decide) hvisit hunused (plainVisit_photo ▸ hconnection)
  rcases hserver with ⟨-, hfails⟩ | ⟨text, next, -, hrunning, -, -, hawaited, hsettled⟩
  · rw [plainResponse_photo] at hfails
    simp at hfails
  · refine ⟨server, hstep, hrunning, ?_, ?_, ?_⟩
    · rw [hsettled]
      exact Sessions.workers_settle_of_ne _ _ (by decide)
    · rw [hsettled]
      exact Sessions.clients_settle_of_ne _ _ (by decide)
    · have hbody : awaitedAfter ieee decimalPrefix copyingWand (fun _ ↦ none) (bytes "icon")
          htmlResponse photoFiles (twoWorkers.workers false).worker servedPhoto =
            [(false, bytes "colors")] := by
        rw [awaitedAfter, plainVisit_photo]
        decide +kernel
      rw [hbody] at hawaited
      rw [hsettled]
      exact (@Sessions.awaited_settle Bool _ twoWorkers.toSessions false _ next (by decide)).trans
        hawaited

/-- The second worker does not disturb the client of the first one. -/
theorem exists_turn_icon {server : SharedServer Bool}
    (hcoherent : Coherent ieee decimalPrefix copyingWand (fun _ ↦ none) photoFiles photoVisits
      server.caches)
    (hrunning : server.caches.images.ended = false)
    (hworker : server.workers true = twoWorkers.workers true)
    (hclient : server.clients 6 = twoWorkers.clients 6) :
    ∃ final, sharedStep ieee decimalPrefix copyingWand (fun _ ↦ none) (bytes "icon") htmlResponse
        photoFiles server (.turn true ⟨servedIcon, none, []⟩) = some final ∧
      final.clients 5 = server.clients 5 := by
  have hserves : ((connectionStep (twoWorkers.workers true)
      (visitWith (bytes "icon") htmlResponse servedIcon none).2).isSome) = true := by
    decide +kernel
  obtain ⟨connection, hconnection⟩ := Option.isSome_iff_exists.mp hserves
  have hconnSd : server.connSd true = 6 := by
    rw [Sessions.connSd, hworker]
    decide
  obtain ⟨hvisit, hunused⟩ := (turnFits_icon hworker).served _ (parsedMessage_icon hworker)
  obtain ⟨final, hstep, hfinal⟩ := @exists_sharedStep _ _ _ _ _ _ (bytes "icon") htmlResponse _ _ _
    servable_photoVisits _ hcoherent hrunning true ⟨servedIcon, none, []⟩ _
    (parsedMessage_icon hworker) (by rw [hconnSd, hclient]; decide) hvisit hunused connection
    (by rw [plainVisit_icon hworker, hworker]; exact hconnection)
  refine ⟨final, hstep, ?_⟩
  rcases hfinal with ⟨hsame, -⟩ | ⟨text, next, -, -, -, -, -, hsettled⟩
  · rw [hsame]
  · rw [hsettled]
    exact Sessions.clients_settle_of_ne _ _ (by rw [hconnSd]; decide)

end ImageApp.Responses
