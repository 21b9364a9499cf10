import ImageApp.Connections.KeepAlive
import ImageApp.Connections.SlotHygiene

/-!
# Disposal of the records of a request

`handle_client` keeps the request and the image that it works on in two variables that are never
reset. The records are created when a request is parsed, and disposed of when a connection is
closed, whatever was parsed for it. `trackEffect` follows both variables through the effects of the
iterations, and notes whether every disposal found its record live and every name that it freed
allocated.

`soundRecords_iff` is about every history of a worker: all disposals are sound exactly when every
iteration that closes its connection has, since the close before it, parsed an image request last.
`not_soundRecords` is a client that sends nothing.
-/

set_option autoImplicit false
set_option relaxedAutoImplicit false

namespace ImageApp.Connections

open Foundations.CStrings Foundations.GuardedRuns Server

/-! ### The two variables -/

/-- The variable `request`, with the kind of its `image_name`. -/
inductive RequestRecord
  | none
  | live (imageName : Storage)
  | disposed
  deriving DecidableEq

/-- The variable `image_info`. -/
inductive ImageRecord
  | none
  | live
  | disposed
  deriving DecidableEq

/-- Both variables, and whether all disposals so far were sound. -/
structure Records where
  request : RequestRecord
  imageInfo : ImageRecord
  sound : Bool
  deriving DecidableEq

/-- `destroy_request` finds a live request, and the name that it frees is allocated. -/
def canDestroyRequest (status : RqstStat) : RequestRecord → Bool
  | .live imageName => status = .messageNotCorrect || imageName = .heap
  | _ => false

/-- An effect on the two variables. -/
def trackEffect (records : Records) : Effect → Records
  | .createRequest imageName => { records with request := .live imageName }
  | .createImage => { records with imageInfo := .live }
  | .destroyRequest status =>
    { records with
      request := .disposed
      sound := records.sound && canDestroyRequest status records.request }
  | .destroyImage =>
    { records with
      imageInfo := .disposed
      sound := records.sound && records.imageInfo = .live }
  | _ => records

/-- The effect is one on the two variables. -/
def isRecordEffect : Effect → Bool
  | .createRequest _ | .createImage | .destroyRequest _ | .destroyImage => true
  | _ => false

/-- The effects on the two variables, in order. -/
def recordEffects (effects : List Effect) : List Effect :=
  effects.filter isRecordEffect

theorem recordEffects_append (first second : List Effect) :
    recordEffects (first ++ second) = recordEffects first ++ recordEffects second :=
  List.filter_append ..

/-- Only the effects on the two variables matter. -/
theorem foldl_trackEffect (records : Records) (effects : List Effect) :
    effects.foldl trackEffect records = (recordEffects effects).foldl trackEffect records := by
  induction effects generalizing records with
  | nil => rfl
  | cons effect effects ih =>
    rw [List.foldl_cons, ih, recordEffects, recordEffects]
    cases effect with
    | createRequest | createImage | destroyRequest | destroyImage => rfl
    | _ => rfl

/-! ### Histories -/

/-- The code that `parse_request` returns in the iteration, if it is called. -/
def parseReturn (worker : Worker) (input : IterationInput) : Option RqstStat :=
  match receiveRequest worker.nextMessage input.received with
  | .returned status message [] =>
    if effectiveStatus worker.td status = .requestReceived then (parseRequest message).map Prod.fst
    else none
  | _ => none

/-- The iteration closes the connection: it does not come to `handle_timer`, or that returns zero.
-/
def closesConnection (worker : Worker) (input : IterationInput) : Bool :=
  match timerEntry worker input with
  | some td =>
    match handleTimer td input.polls with
    | some (_, timer, _) => timer = 0
    | none => false
  | none => true

/-- A worker with its two variables, and with the code of the last request that it has parsed since
it closed a connection. -/
structure RecordRun where
  worker : Worker
  records : Records
  lastParsed : Option RqstStat

/-- The code of the last request that was parsed since the last close, at the end of the switch. -/
def parsedLast (state : RecordRun) (input : IterationInput) : Option RqstStat :=
  (parseReturn state.worker input).or state.lastParsed

/-- A worker is assigned a connection, or goes through its loop. -/
def recordStep (state : RecordRun) (action : WorkerAction) : Option RecordRun :=
  match action with
  | .dispatch _ _ =>
    (workerStep state.worker action).map fun worker ↦ { state with worker := worker }
  | .serve input =>
    if state.worker.td.msgReceived = 1 then
      (iterate state.worker input).map fun (worker, effects) ↦
        { worker := worker
          records := effects.foldl trackEffect state.records
          lastParsed :=
            if closesConnection state.worker input then none else parsedLast state input }
    else none

/-- A worker before its first connection. -/
def startRecords : RecordRun where
  worker := startedWorker
  records := { request := .none, imageInfo := .none, sound := true }
  lastParsed := none

/-- All disposals were sound. -/
def SoundRecords (state : RecordRun) : Prop :=
  state.records.sound = true

/-- An iteration that closes its connection has parsed an image request last. -/
def ImageRequestLast (state : RecordRun) : WorkerAction → Prop
  | .dispatch _ _ => True
  | .serve input =>
    closesConnection state.worker input = true → parsedLast state input = some .requestReceived

instance decidableImageRequestLast (state : RecordRun) (action : WorkerAction) :
    Decidable (ImageRequestLast state action) :=
  match action with
  | .dispatch _ _ => inferInstanceAs (Decidable True)
  | .serve _ => inferInstanceAs (Decidable (_ → _))

/-! ### The effects of an iteration -/

/-- The records that are created for a parsed request. -/
def created : Option RqstStat → List Effect
  | none => []
  | some .requestReceived => [.createRequest .heap, .createImage]
  | some _ => [.createRequest .literal]

/-- The records that are disposed of at the end of an iteration. -/
def destroyed (closes : Bool) (status : RqstStat) : List Effect :=
  if closes then [.destroyRequest status, .destroyImage] else []

/-- The name of a request is allocated exactly for an image request. -/
theorem storage_of_parseRequest {message : List Byte} {ret : RqstStat} {request : ParsedRequest}
    (hparse : parseRequest message = some (ret, request)) :
    request.imageNameStorage = if ret = .requestReceived then .heap else .literal := by
  obtain ⟨firstLine, -, hparse⟩ := Option.bind_eq_some_iff.mp hparse
  obtain ⟨name, -, hparse⟩ := Option.bind_eq_some_iff.mp hparse
  cases name with
  | imageRequested imageName ext =>
    obtain ⟨acceptLine, -, hparse⟩ := Option.bind_eq_some_iff.mp hparse
    obtain ⟨userAgent, -, hparse⟩ := Option.map_eq_some_iff.mp hparse
    rw [Prod.mk.injEq] at hparse
    rw [← hparse.1, ← hparse.2, if_pos rfl]
  | messageNotCorrect | emptyPath | iconRequested =>
    rw [Option.some.injEq, Prod.mk.injEq] at hparse
    rw [← hparse.1, ← hparse.2, if_neg (by decide)]

/-- The answer to a request creates its records, and disposes of them when the client is gone. -/
theorem recordEffects_respond {td td' : ThreadData} {idx : Fin 5} {input : IterationInput}
    {ret : RqstStat} {request : ParsedRequest} {effects : List Effect} {continued : Bool}
    (hstorage : request.imageNameStorage = if ret = .requestReceived then .heap else .literal)
    (hrespond : respond td idx input ret request = (td', effects, continued)) :
    recordEffects effects = created (some ret) ++ destroyed continued .connectionClosed := by
  cases ret with
  | requestReceived =>
    rw [if_pos rfl] at hstorage
    simp only [respond, hstorage] at hrespond
    split_ifs at hrespond with hpresent hgone
    · rw [Prod.mk.injEq, Prod.mk.injEq] at hrespond
      rw [← hrespond.2.1, ← hrespond.2.2]
      rfl
    · obtain ⟨rfl, rfl⟩ := finishRequest_eq hrespond
      rfl
    · obtain ⟨rfl, rfl⟩ := finishRequest_eq hrespond
      rfl
  | _ =>
    rw [if_neg (by decide)] at hstorage
    simp only [respond, hstorage] at hrespond
    obtain ⟨rfl, rfl⟩ := finishRequest_eq hrespond
    rfl

/-- The timer disposes of the records when it closes the connection. -/
theorem recordEffects_keepAlive {td td' : ThreadData} {status : RqstStat} {polls : List ℤ}
    {effects : List Effect} (hrun : keepAlive td status polls = some (td', effects)) :
    ∃ timed timer, handleTimer td polls = some (timed, timer, []) ∧
      recordEffects effects = destroyed (timer = 0) status := by
  obtain ⟨timed, timer, htimer, ⟨hexpired, -, rfl⟩ | ⟨hkept, -, rfl⟩⟩ := keepAlive_cases hrun
  · refine ⟨timed, timer, htimer, ?_⟩
    rw [hexpired]
    rfl
  · refine ⟨timed, timer, htimer, ?_⟩
    rw [destroyed, if_neg (by simpa using hkept)]
    rfl

/-- The warning has nothing to do with the records. -/
theorem recordEffects_warning_append (td : ThreadData) (effects : List Effect) :
    recordEffects (warning td ++ effects) = recordEffects effects := by
  have hwarning : recordEffects (warning td) = [] := by
    unfold warning
    split_ifs
    · rfl
    · rfl
  rw [recordEffects_append, hwarning, List.nil_append]

/-- What an iteration does to the records: it creates those of the request that it parses, and
disposes of what is there when it closes the connection. -/
theorem recordEffects_iterate {worker worker' : Worker} {input : IterationInput}
    {effects : List Effect} (hrun : iterate worker input = some (worker', effects)) :
    ∃ status, status ≠ .messageNotCorrect ∧ recordEffects effects =
      created (parseReturn worker input) ++
        destroyed (closesConnection worker input) status := by
  unfold parseReturn closesConnection timerEntry
  cases iteration_of_iterate hrun with
  | emptied hreceive hstatus hidx htd heffects =>
    refine ⟨.connectionClosed, by decide, ?_⟩
    rw [heffects, recordEffects_warning_append]
    simp only [hreceive, effectiveStatus_storeMessage, hstatus]
    rfl
  | left hreceive hstatus hidx hparse hrespond heffects =>
    refine ⟨.connectionClosed, by decide, ?_⟩
    rw [heffects, recordEffects_warning_append,
      recordEffects_respond (storage_of_parseRequest hparse) hrespond]
    simp only [hreceive, effectiveStatus_storeMessage, hstatus, handleRequest, storeMessage_message,
      hparse, Option.map_some, Option.bind_some, hrespond, if_true]
  | stayed hreceive hstatus hidx hparse hrespond hkeep heffects =>
    obtain ⟨timed, timer, htimer, hlast⟩ := recordEffects_keepAlive hkeep
    refine ⟨.requestReceived, by decide, ?_⟩
    rw [heffects, recordEffects_warning_append, recordEffects_append, hlast,
      recordEffects_respond (storage_of_parseRequest hparse) hrespond]
    simp only [hreceive, effectiveStatus_storeMessage, hstatus, handleRequest, storeMessage_message,
      hparse, Option.map_some, Option.bind_some, hrespond, Bool.false_eq_true, if_false, if_true,
      htimer, destroyed, List.append_nil]

/-! ### The records between two iterations -/

/-- What was parsed last since the last close, and what the two variables hold. -/
structure Tracked (records : Records) (lastParsed : Option RqstStat) : Prop where
  request_iff : records.request = .live .heap ↔ lastParsed = some .requestReceived
  imageInfo_of : lastParsed = some .requestReceived → records.imageInfo = .live

/-- The records of a new request take the place of those before. -/
theorem tracked_created {records : Records} {lastParsed : Option RqstStat}
    (htracked : Tracked records lastParsed) (parsed : Option RqstStat) :
    Tracked ((created parsed).foldl trackEffect records) (parsed.or lastParsed) ∧
      ((created parsed).foldl trackEffect records).sound = records.sound := by
  cases parsed with
  | none => exact ⟨htracked, rfl⟩
  | some ret =>
    cases ret with
    | requestReceived => exact ⟨⟨by simp [created, trackEffect], fun _ ↦ rfl⟩, rfl⟩
    | _ => exact ⟨⟨by simp [created, trackEffect], by simp⟩, rfl⟩

/-- The disposal at a close is sound when an image request was parsed last. -/
theorem sound_destroyed {records : Records} {lastParsed : Option RqstStat} {status : RqstStat}
    (htracked : Tracked records lastParsed) (hstatus : status ≠ .messageNotCorrect) :
    ((destroyed true status).foldl trackEffect records).sound = true ↔
      records.sound = true ∧ lastParsed = some .requestReceived := by
  have hcan : canDestroyRequest status records.request = true ↔
      records.request = .live .heap := by
    cases records.request with
    | live imageName => simp [canDestroyRequest, hstatus]
    | none | disposed => simp [canDestroyRequest]
  show (records.sound && canDestroyRequest status records.request &&
    decide (records.imageInfo = .live)) = true ↔ _
  rw [Bool.and_eq_true, Bool.and_eq_true, hcan, htracked.request_iff, decide_eq_true_iff]
  constructor
  · rintro ⟨hsound, -⟩
    exact hsound
  · intro hsound
    exact ⟨hsound, htracked.imageInfo_of hsound.2⟩

/-- An iteration keeps all disposals sound exactly when it does not close its connection, or an
image request was parsed last. -/
theorem recordStep_spec (state : RecordRun) (action : WorkerAction) (state' : RecordRun)
    (htracked : Tracked state.records state.lastParsed)
    (hstep : recordStep state action = some state') :
    Tracked state'.records state'.lastParsed ∧
      (SoundRecords state' ↔ SoundRecords state ∧ ImageRequestLast state action) := by
  cases action with
  | dispatch connSd clientAddr =>
    obtain ⟨worker, -, rfl⟩ := Option.map_eq_some_iff.mp hstep
    exact ⟨htracked, (and_iff_left trivial).symm⟩
  | serve input =>
    simp only [recordStep, Option.ite_none_right_eq_some, Option.map_eq_some_iff] at hstep
    obtain ⟨-, ⟨worker, effects⟩, hrun, rfl⟩ := hstep
    obtain ⟨status, hstatus, heffects⟩ := recordEffects_iterate hrun
    obtain ⟨hcreated, hsound⟩ := tracked_created htracked (parseReturn state.worker input)
    simp only [SoundRecords, ImageRequestLast, foldl_trackEffect state.records effects, heffects,
      List.foldl_append]
    cases closesConnection state.worker input with
    | true =>
      refine ⟨⟨by simp [destroyed, trackEffect], by simp⟩, ?_⟩
      rw [sound_destroyed hcreated hstatus, hsound, parsedLast]
      exact and_congr_right fun _ ↦ ⟨fun hlast _ ↦ hlast, fun hlast ↦ hlast rfl⟩
    | false =>
      refine ⟨hcreated, ?_⟩
      rw [destroyed, if_neg Bool.false_ne_true, List.foldl_nil, hsound]
      simp

theorem tracked_startRecords : Tracked startRecords.records startRecords.lastParsed := by
  constructor <;> simp [startRecords]

/-- All disposals of a worker are sound exactly when every iteration that closes its connection has,
since the close before it, parsed an image request last. -/
theorem soundRecords_iff {actions : List WorkerAction} {state : RecordRun}
    (hrun : run recordStep startRecords actions = some state) :
    SoundRecords state ↔ Guarded recordStep ImageRequestLast startRecords actions := by
  have hflag := flag_iff_guarded recordStep_spec tracked_startRecords hrun
  rw [hflag]
  exact and_iff_right rfl

/-! ### Two clients -/

/-- A whole request for a photo, whose client is gone when it is answered. -/
def abandonedPhoto : IterationInput :=
  { servedPhoto with clientGone := true }

theorem soundRecords_photo :
    ∃ state, run recordStep startRecords
      [.dispatch 4 (0, 0), .serve servedPhoto, .serve abandonedPhoto] = some state ∧
        state.records.request = .disposed ∧ SoundRecords state := by
  obtain ⟨state, hrun, hstate⟩ := Option.map_eq_some_iff.mp
    (show (run recordStep startRecords
      [.dispatch 4 (0, 0), .serve servedPhoto, .serve abandonedPhoto]).map
        (fun state ↦ state.records.request) = some .disposed by decide +kernel)
  exact ⟨state, hrun, hstate, (soundRecords_iff hrun).mpr (by decide +kernel)⟩

/-- A client that leaves before it has sent a byte. -/
def silentClient : IterationInput where
  received := [.data []]
  imagePresent := true
  clientGone := false
  polls := []

/-- The first client of a worker sends nothing, and records that do not exist are disposed of. -/
theorem not_soundRecords :
    ¬ ∀ (actions : List WorkerAction) (state : RecordRun),
      run recordStep startRecords actions = some state → SoundRecords state := by
  intro hsound
  obtain ⟨state, hrun, hstate⟩ := Option.map_eq_some_iff.mp
    (show (run recordStep startRecords [.dispatch 4 (0, 0), .serve silentClient]).map
      (fun state ↦ state.records.sound) = some false by decide +kernel)
  exact Bool.false_ne_true (hstate.symm.trans (hsound _ state hrun))

end ImageApp.Connections
