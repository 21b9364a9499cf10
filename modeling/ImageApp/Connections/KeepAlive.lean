import ImageApp.Foundations.GuardedRuns
import ImageApp.Server.HandleClient

/-!
# The keep-alive timer

`handle_timer` counts the seconds that a connection may still stay silent down in the slot, and
returns the counter: zero closes the connection. A connection starts with 5 seconds and 1000
requests. Each silent poll takes a second away, and so does the poll that finds the socket readable,
unless the counter was used up: then the last poll sets it to 5 again.

`handleTimer_spec` says what a call does. `budget_of_run` is the resulting invariant of a whole
connection: the counters stay in range, a call needs at most one poll more than there are seconds,
and at most 1000 requests are parsed. `returns_nonzero_iff` says when a readable socket is kept: the
call must not have made as many polls as there were seconds. `not_returns_nonzero` is a client whose
next request is always waiting, and who is dropped after five requests.
-/

set_option autoImplicit false
set_option relaxedAutoImplicit false

namespace ImageApp.Connections

open Foundations.CStrings Foundations.GuardedRuns Server

/-! ### A call of the timer -/

/-- How a call of `handle_timer` went: the polls before the last one were silent, and it ended with
a readable socket or with the seconds used up. -/
inductive Timed (td td' : ThreadData) (silent : List ℤ) : ℤ → ℤ → Prop
  | readable (hmsgReceived : td'.msgReceived = 1) (hrequest : td'.request = td.request - 1)
      (hsilent : (silent.length : ℤ) < td.timer)
      (htimer : td'.timer = td.timer - (silent.length + 1)) : Timed td td' silent 1 td'.timer
  | restarted (hmsgReceived : td'.msgReceived = 1) (hrequest : td'.request = td.request - 1)
      (hsilent : (silent.length : ℤ) = td.timer) (htimer : td'.timer = 5) : Timed td td' silent 1 1
  | expired {last : ℤ} (hlast : last ≠ 1) (hrequest : td'.request = td.request)
      (hsilent : (silent.length : ℤ) = td.timer) : Timed td td' silent last 0

/-- A silent poll takes one of the seconds. -/
theorem Timed.cons {td td' : ThreadData} {silent : List ℤ} {last timer : ℤ} (ready : ℤ)
    (htimed : Timed { td with timer := td.timer - 1 } td' silent last timer) :
    Timed td td' (ready :: silent) last timer := by
  cases htimed with
  | readable hmsgReceived hrequest hlength htimer =>
    have hlength' : (silent.length : ℤ) < td.timer - 1 := hlength
    refine .readable hmsgReceived hrequest ?_ ?_
    · rw [List.length_cons]
      push_cast
      omega
    · have htimer' : td'.timer = td.timer - 1 - (silent.length + 1) := htimer
      rw [htimer', List.length_cons]
      push_cast
      omega
  | restarted hmsgReceived hrequest hlength htimer =>
    have hlength' : (silent.length : ℤ) = td.timer - 1 := hlength
    refine .restarted hmsgReceived hrequest ?_ htimer
    rw [List.length_cons]
    push_cast
    omega
  | expired hlast hrequest hlength =>
    have hlength' : (silent.length : ℤ) = td.timer - 1 := hlength
    refine .expired hlast hrequest ?_
    rw [List.length_cons]
    push_cast
    omega

/-- What a call of `handle_timer` does: it takes silent polls one by one, and its last one is
readable or comes when the seconds are used up. -/
theorem handleTimer_spec {td td' : ThreadData} {polls rest : List ℤ} {timer : ℤ}
    (hrun : handleTimer td polls = some (td', timer, rest)) :
    ∃ silent last, polls = silent ++ last :: rest ∧ (∀ ready ∈ silent, ready ≠ 1) ∧
      (0 ≤ td.timer → Timed td td' silent last timer) := by
  induction polls generalizing td with
  | nil => simp [handleTimer] at hrun
  | cons ready polls ih =>
    simp only [handleTimer] at hrun
    split_ifs at hrun with hzero hready hready
    · simp only [Option.some.injEq, Prod.mk.injEq] at hrun
      obtain ⟨rfl, rfl, rfl⟩ := hrun
      refine ⟨[], ready, rfl, by simp, fun _ ↦ ?_⟩
      rw [hready]
      exact .restarted rfl rfl hzero.symm rfl
    · simp only [Option.some.injEq, Prod.mk.injEq] at hrun
      obtain ⟨rfl, rfl, rfl⟩ := hrun
      exact ⟨[], ready, rfl, by simp, fun _ ↦ .expired hready rfl hzero.symm⟩
    · simp only [Option.some.injEq, Prod.mk.injEq] at hrun
      obtain ⟨rfl, rfl, rfl⟩ := hrun
      refine ⟨[], ready, rfl, by simp, fun hnonneg ↦ ?_⟩
      rw [hready]
      have hpos : 0 < td.timer := lt_of_le_of_ne hnonneg (Ne.symm hzero)
      exact .readable rfl rfl hpos (by simp)
    · obtain ⟨silent, last, rfl, hsilent, htimed⟩ := ih hrun
      refine ⟨ready :: silent, last, rfl, ?_, fun hnonneg ↦ ?_⟩
      · intro other hmem
        rcases List.mem_cons.mp hmem with rfl | hmem
        · exact hready
        · exact hsilent other hmem
      · -- The rest of the call starts with one second less.
        exact (htimed (by show 0 ≤ td.timer - 1; omega)).cons ready

/-- A call of `handle_timer` returns when there is one poll more than there are seconds. -/
theorem exists_handleTimer {td : ThreadData} {polls : List ℤ} (hnonneg : 0 ≤ td.timer)
    (hpolls : td.timer + 1 ≤ polls.length) :
    ∃ td' timer rest, handleTimer td polls = some (td', timer, rest) := by
  induction polls generalizing td with
  | nil =>
    rw [List.length_nil] at hpolls
    omega
  | cons ready polls ih =>
    simp only [handleTimer]
    split_ifs with hzero hready hready
    · exact ⟨_, _, _, rfl⟩
    · exact ⟨_, _, _, rfl⟩
    · exact ⟨_, _, _, rfl⟩
    · rw [List.length_cons] at hpolls
      push_cast at hpolls
      exact ih (by show 0 ≤ td.timer - 1; omega)
        (by show td.timer - 1 + 1 ≤ _; omega)

/-! ### A connection -/

/-- Whether the iteration parses a request. -/
def parses (worker : Worker) (input : IterationInput) : Bool :=
  match receiveRequest worker.nextMessage input.received with
  | .returned status _ [] => effectiveStatus worker.td status = .requestReceived
  | _ => false

/-- The slot with which the iteration calls `handle_timer`, if it does. -/
def timerEntry (worker : Worker) (input : IterationInput) : Option ThreadData :=
  match receiveRequest worker.nextMessage input.received with
  | .returned status message [] =>
    let td := storeMessage worker.td worker.nextIdx message
    match effectiveStatus td status with
    | .requestReceived =>
      (handleRequest td worker.nextIdx input).bind fun (td, _, continued) ↦
        if continued then none else some td
    | .emptyMessage => none
    | _ => some td
  | _ => none

/-- A worker with the number of requests that it has parsed since its connection was assigned. -/
structure ConnectionRun where
  worker : Worker
  parsed : ℕ

/-- An iteration for the connection. After the connection is closed no message is announced. -/
def connectionStep (state : ConnectionRun) (input : IterationInput) : Option ConnectionRun :=
  if state.worker.td.msgReceived = 1 then
    (iterate state.worker input).map fun (worker, _) ↦
      { worker := worker
        parsed := state.parsed + if parses state.worker input then 1 else 0 }
  else none

/-- A worker to which `dispatch_job` has assigned a connection. -/
def dispatched (worker : Worker) (connSd : Descriptor) (clientAddr : SockaddrIn) :
    ConnectionRun where
  worker := { worker with td := assignConnection worker.td connSd clientAddr }
  parsed := 0

/-- `handle_timer` is called with the seconds and the requests of the slot, and there are requests
left. -/
theorem timerEntry_spec {worker : Worker} {input : IterationInput} {td : ThreadData}
    (hentry : timerEntry worker input = some td) :
    td.timer = worker.td.timer ∧ td.request = worker.td.request ∧ worker.td.request ≠ 0 := by
  unfold timerEntry at hentry
  split at hentry
  · rename_i status message hreceive
    rcases effectiveStatus_cases hreceive with ⟨hreceived, hleft⟩ | hempty
    · simp only [effectiveStatus_storeMessage, hreceived, Option.bind_eq_some_iff] at hentry
      obtain ⟨⟨td', effects, continued⟩, hrequest, hentry⟩ := hentry
      obtain ⟨⟨ret, request⟩, -, hrespond⟩ := Option.map_eq_some_iff.mp hrequest
      cases continued with
      | true =>
        rw [if_pos rfl] at hentry
        simp at hentry
      | false =>
        rw [if_neg Bool.false_ne_true, Option.some.injEq] at hentry
        rw [← hentry, respond_stayed hrespond]
        exact ⟨rfl, rfl, hleft⟩
    · simp only [effectiveStatus_storeMessage, hempty] at hentry
      simp at hentry
  · simp at hentry

/-- The call of `handle_timer` in an iteration: there is none after a close, and the slot is the one
that the answer to the request has left. -/
theorem timerEntry_eq {worker worker' : Worker} {input : IterationInput} {effects : List Effect}
    (hiteration : Iteration worker input worker' effects) :
    (timerEntry worker input = none ∧ ∃ message, worker'.td =
      { (closeClientWithStatus worker.td .connectionClosed).1 with message := message }) ∨
    ∃ td last, timerEntry worker input = some td ∧
      keepAlive td .requestReceived input.polls = some (worker'.td, last) := by
  unfold timerEntry
  cases hiteration with
  | emptied hreceive hstatus hidx htd =>
    simp only [hreceive, effectiveStatus_storeMessage, hstatus]
    exact Or.inl ⟨trivial, _, htd⟩
  | left hreceive hstatus hidx hparse hrespond =>
    simp only [hreceive, effectiveStatus_storeMessage, hstatus, handleRequest, storeMessage_message,
      hparse, Option.map_some, Option.bind_some, hrespond, if_true]
    have hleft := respond_left hrespond
    exact Or.inl ⟨trivial, _, hleft⟩
  | stayed hreceive hstatus hidx hparse hrespond hkeep =>
    simp only [hreceive, effectiveStatus_storeMessage, hstatus, handleRequest, storeMessage_message,
      hparse, Option.map_some, Option.bind_some, hrespond, Bool.false_eq_true, if_false]
    exact Or.inr ⟨_, _, rfl, hkeep⟩

/-- An iteration ends in `handle_timer` as `timerEntry` says, or it closes the connection. -/
theorem iterate_timerEntry {worker worker' : Worker} {input : IterationInput}
    {effects : List Effect} (hrun : iterate worker input = some (worker', effects)) :
    (timerEntry worker input = none ∧ ∃ message, worker'.td =
      { (closeClientWithStatus worker.td .connectionClosed).1 with message := message }) ∨
    ∃ td td' timer, timerEntry worker input = some td ∧
      handleTimer td input.polls = some (td', timer, []) ∧
      worker'.td = if timer = 0 then (closeClientWithStatus td' .connectionClosed).1 else td' := by
  rcases timerEntry_eq (iteration_of_iterate hrun) with hclosed | ⟨td, last, hentry, hkeep⟩
  · exact Or.inl hclosed
  · obtain ⟨timed, timer, htimer, ⟨hexpired, htd, -⟩ | ⟨hkept, htd, -⟩⟩ := keepAlive_cases hkeep
    · refine Or.inr ⟨td, timed, timer, hentry, htimer, ?_⟩
      rw [if_pos hexpired]
      exact htd
    · refine Or.inr ⟨td, timed, timer, hentry, htimer, ?_⟩
      rw [if_neg hkept]
      exact htd

/-- A request is parsed only when there are requests left. -/
theorem request_ne_zero_of_parses {worker : Worker} {input : IterationInput}
    (hparses : parses worker input = true) : worker.td.request ≠ 0 := by
  unfold parses at hparses
  split at hparses
  · intro hspent
    simp [effectiveStatus, hspent] at hparses
  · simp at hparses

/-! ### The budget of a connection -/

/-- The counters between two iterations. As long as the connection is open, every request that was
parsed has been paid for. -/
structure Budget (state : ConnectionRun) : Prop where
  timer_pos : 1 ≤ state.worker.td.timer
  timer_le : state.worker.td.timer ≤ 5
  request_nonneg : 0 ≤ state.worker.td.request
  request_le : state.worker.td.request ≤ 1000
  parsed_le : state.parsed ≤ 1000
  paid : state.worker.td.msgReceived = 1 → state.parsed + state.worker.td.request ≤ 1000

theorem budget_dispatched (worker : Worker) (connSd : Descriptor) (clientAddr : SockaddrIn) :
    Budget (dispatched worker connSd clientAddr) := by
  constructor <;> simp [dispatched, assignConnection]

/-- An iteration keeps the counters in range. -/
theorem budget_step (state : ConnectionRun) (input : IterationInput) (state' : ConnectionRun)
    (hbudget : Budget state) (hstep : connectionStep state input = some state') :
    Budget state' := by
  simp only [connectionStep, Option.ite_none_right_eq_some, Option.map_eq_some_iff] at hstep
  obtain ⟨hopen, ⟨worker', effects⟩, hrun, rfl⟩ := hstep
  have hpaid := hbudget.paid hopen
  have hparsed : state.parsed + (if parses state.worker input then 1 else 0) ≤ 1000 := by
    have hrequest := hbudget.request_nonneg
    split_ifs with hparses
    · have hleft := request_ne_zero_of_parses hparses
      omega
    · exact hbudget.parsed_le
  rcases iterate_timerEntry hrun with ⟨-, message, hclosed⟩ | ⟨td, td', timer, hentry, htimer, hend⟩
  · constructor <;> simp [hclosed, closeClientWithStatus, hparsed]
  · obtain ⟨htimerEq, hrequestEq, hleft⟩ := timerEntry_spec hentry
    obtain ⟨silent, last, -, -, htimed⟩ := handleTimer_spec htimer
    have htimerPos := hbudget.timer_pos
    have htimerLe := hbudget.timer_le
    have hrequestNonneg := hbudget.request_nonneg
    have hrequestLe := hbudget.request_le
    have hstart := htimed (by omega)
    by_cases hexpired : timer = 0
    · rw [if_pos hexpired] at hend
      constructor <;> simp [hend, closeClientWithStatus, hparsed]
    · rw [if_neg hexpired] at hend
      have hone : (if parses state.worker input then 1 else 0) ≤ 1 := by split_ifs <;> omega
      cases hstart with
      | readable hmsgReceived hrequest hsilent htimer =>
        constructor <;> simp only [hend]
        · omega
        · omega
        · omega
        · omega
        · exact hparsed
        · intro
          push_cast
          omega
      | restarted hmsgReceived hrequest hsilent htimer =>
        constructor <;> simp only [hend]
        · omega
        · omega
        · omega
        · omega
        · exact hparsed
        · intro
          push_cast
          omega
      | expired hlast hrequest hsilent => exact absurd rfl hexpired

/-- The counters of a connection stay in range. -/
theorem budget_of_run {worker : Worker} {connSd : Descriptor} {clientAddr : SockaddrIn}
    {inputs : List IterationInput} {state : ConnectionRun}
    (hrun : run connectionStep (dispatched worker connSd clientAddr) inputs = some state) :
    Budget state :=
  invariant_of_run budget_step (budget_dispatched worker connSd clientAddr) hrun

/-- What is promised of a call of `handle_timer`: the counters are in range, and with any polls it
returns after at most one more than there are seconds, and takes away at most one request. -/
structure CallInRange (td : ThreadData) : Prop where
  timer_pos : 1 ≤ td.timer
  timer_le : td.timer ≤ 5
  request_pos : 1 ≤ td.request
  request_le : td.request ≤ 1000
  returns : ∀ polls : List ℤ, td.timer + 1 ≤ polls.length →
    ∃ td' timer used rest, handleTimer td polls = some (td', timer, rest) ∧ polls = used ++ rest ∧
      (used.length : ℤ) ≤ td.timer + 1 ∧ td.request - 1 ≤ td'.request ∧ td'.request ≤ td.request

/-- A call with seconds and requests left. -/
theorem callInRange_of_budget {state : ConnectionRun} {input : IterationInput} {td : ThreadData}
    (hbudget : Budget state) (hentry : timerEntry state.worker input = some td) :
    CallInRange td := by
  obtain ⟨htimer, hrequest, hleft⟩ := timerEntry_spec hentry
  have htimerPos := hbudget.timer_pos
  have htimerLe := hbudget.timer_le
  have hrequestNonneg := hbudget.request_nonneg
  have hrequestLe := hbudget.request_le
  refine ⟨by omega, by omega, by omega, by omega, fun polls hpolls ↦ ?_⟩
  obtain ⟨td', timer, rest, hcall⟩ := exists_handleTimer (by omega) hpolls
  obtain ⟨silent, last, hsplit, -, htimed⟩ := handleTimer_spec hcall
  refine ⟨td', timer, silent ++ [last], rest, hcall, by rw [hsplit]; simp, ?_⟩
  rw [List.length_append, List.length_singleton]
  push_cast
  cases htimed (by omega) with
  | readable hmsgReceived hrequest' hsilent => omega
  | restarted hmsgReceived hrequest' hsilent => omega
  | expired hlast hrequest' hsilent => omega

/-- From the assignment of a connection to its close, every call of `handle_timer` is in range, and
at most 1000 requests are parsed, the one of the next iteration included. -/
theorem callInRange_of_run {worker : Worker} {connSd : Descriptor} {clientAddr : SockaddrIn}
    {inputs : List IterationInput} {state : ConnectionRun}
    (hrun : run connectionStep (dispatched worker connSd clientAddr) inputs = some state) :
    state.parsed ≤ 1000 ∧
      ∀ input,
        (state.worker.td.msgReceived = 1 → parses state.worker input = true →
          state.parsed + 1 ≤ 1000) ∧
        ∀ td, timerEntry state.worker input = some td → CallInRange td := by
  have hbudget := budget_of_run hrun
  refine ⟨hbudget.parsed_le, fun input ↦ ⟨fun hopen hparses ↦ ?_, fun td hentry ↦ ?_⟩⟩
  · have hpaid := hbudget.paid hopen
    have hleft := request_ne_zero_of_parses hparses
    have hnonneg := hbudget.request_nonneg
    omega
  · exact callInRange_of_budget hbudget hentry

/-- One request of a connection, and the call of `handle_timer` in the next iteration. -/
theorem callInRange_photo :
    ∃ state td, run connectionStep (dispatched ⟨allocatedThread, 0⟩ 4 (0, 0)) [servedPhoto] =
      some state ∧ timerEntry state.worker servedPhoto = some td ∧ state.parsed = 1 ∧
        CallInRange td := by
  obtain ⟨state, hrun, hstate⟩ := Option.map_eq_some_iff.mp
    (show (run connectionStep (dispatched ⟨allocatedThread, 0⟩ 4 (0, 0)) [servedPhoto]).map
      (fun state ↦ (state.parsed, (timerEntry state.worker servedPhoto).isSome)) = some (1, true) by
        decide +kernel)
  rw [Prod.mk.injEq] at hstate
  obtain ⟨td, hentry⟩ := Option.isSome_iff_exists.mp hstate.2
  exact ⟨state, td, hrun, hentry, hstate.1, ((callInRange_of_run hrun).2 servedPhoto).2 td hentry⟩

/-! ### A readable socket -/

/-- When the last poll of a call has found the socket readable, the connection is kept exactly when
the call has not made as many polls as there were seconds. -/
theorem returns_nonzero_iff {worker : Worker} {connSd : Descriptor} {clientAddr : SockaddrIn}
    {inputs : List IterationInput} {state : ConnectionRun} {input : IterationInput}
    {td td' : ThreadData} {polls : List ℤ} {timer : ℤ}
    (hrun : run connectionStep (dispatched worker connSd clientAddr) inputs = some state)
    (hentry : timerEntry state.worker input = some td)
    (hcall : handleTimer td polls = some (td', timer, [])) (hready : polls.getLast? = some 1) :
    timer ≠ 0 ↔ (polls.length : ℤ) ≠ td.timer := by
  have hrange := callInRange_of_budget (budget_of_run hrun) hentry
  have htimerPos := hrange.timer_pos
  obtain ⟨silent, last, rfl, -, htimed⟩ := handleTimer_spec hcall
  rw [List.getLast?_concat, Option.some.injEq] at hready
  subst hready
  rw [List.length_append, List.length_singleton]
  push_cast
  cases htimed (by omega) with
  | readable hmsgReceived hrequest hsilent htimer => omega
  | restarted hmsgReceived hrequest hsilent htimer => omega
  | expired hlast => exact absurd rfl hlast

/-- A request whose next one comes after two silent seconds. -/
def slowPhoto : IterationInput :=
  { servedPhoto with polls := [0, 0, 1] }

theorem returns_nonzero_slow :
    ∃ state td td' timer,
      run connectionStep (dispatched ⟨allocatedThread, 0⟩ 4 (0, 0)) [] = some state ∧
        timerEntry state.worker slowPhoto = some td ∧
        handleTimer td slowPhoto.polls = some (td', timer, []) ∧
        (timer ≠ 0 ↔ (slowPhoto.polls.length : ℤ) ≠ td.timer) := by
  obtain ⟨td, hentry⟩ := Option.isSome_iff_exists.mp
    (show (timerEntry (dispatched ⟨allocatedThread, 0⟩ 4 (0, 0)).worker slowPhoto).isSome = true by
      decide +kernel)
  have htimer : td.timer = 5 := (timerEntry_spec hentry).1
  have hcall : ∃ td', handleTimer td slowPhoto.polls = some (td', 2, []) := by
    simp [slowPhoto, servedPhoto, handleTimer, htimer]
  obtain ⟨td', hcall⟩ := hcall
  exact ⟨_, td, td', 2, rfl, hentry, hcall,
    @returns_nonzero_iff _ _ _ [] _ _ _ _ _ _ (run_nil _) hentry hcall rfl⟩

/-- A client whose next request is always waiting is dropped after five requests, although the
socket is readable. -/
theorem not_returns_nonzero :
    (¬ ∀ (worker : Worker) (connSd : Descriptor) (clientAddr : SockaddrIn)
      (inputs : List IterationInput) (state : ConnectionRun) (input : IterationInput)
      (td td' : ThreadData) (timer : ℤ),
      run connectionStep (dispatched worker connSd clientAddr) inputs = some state →
        timerEntry state.worker input = some td →
          handleTimer td input.polls = some (td', timer, []) → input.polls.getLast? = some 1 →
            timer ≠ 0) ∧
      ∃ state, run connectionStep (dispatched ⟨allocatedThread, 0⟩ 4 (0, 0))
        (List.replicate 5 servedPhoto) = some state ∧ state.parsed = 5 ∧
          state.worker.td.used = -1 := by
  constructor
  · intro hkept
    obtain ⟨state, hrun, hstate⟩ := Option.map_eq_some_iff.mp
      (show (run connectionStep (dispatched ⟨allocatedThread, 0⟩ 4 (0, 0))
        (List.replicate 4 servedPhoto)).map (fun state ↦
          (state.worker.td.timer, (timerEntry state.worker servedPhoto).isSome)) =
            some (1, true) by decide +kernel)
    rw [Prod.mk.injEq] at hstate
    obtain ⟨td, hentry⟩ := Option.isSome_iff_exists.mp hstate.2
    have htimer : td.timer = 1 := (timerEntry_spec hentry).1.trans hstate.1
    have hcall : ∃ td', handleTimer td servedPhoto.polls = some (td', 0, []) := by
      simp [servedPhoto, handleTimer, htimer]
    obtain ⟨td', hcall⟩ := hcall
    exact hkept _ _ _ _ state servedPhoto td td' 0 hrun hentry hcall rfl rfl
  · obtain ⟨state, hrun, hstate⟩ := Option.map_eq_some_iff.mp
      (show (run connectionStep (dispatched ⟨allocatedThread, 0⟩ 4 (0, 0))
        (List.replicate 5 servedPhoto)).map (fun state ↦ (state.parsed, state.worker.td.used)) =
          some (5, -1) by decide +kernel)
    rw [Prod.mk.injEq] at hstate
    exact ⟨state, hrun, hstate⟩

end ImageApp.Connections
