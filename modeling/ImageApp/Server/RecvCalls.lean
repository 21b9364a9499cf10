import ImageApp.Server.Reception
import ImageApp.Server.Senders

/-!
# The calls of recv

`receive_request` of `Request.c`, one iteration of its loop after the other, with the range of the
message slot that each call of `recv` may store to, and with the end of the loop that has no return
behind it. What `recv` does is a function of the number of the call and of the number of bytes that
are requested. On a slot without a NUL the three searches read on behind the slot; what they find
then is a parameter.

`exists_ended_of_receiveRequest` connects the loop with `receiveLoop` of `Reception.lean`, where the
results of the calls are a list.
-/

set_option autoImplicit false
set_option relaxedAutoImplicit false

namespace ImageApp.Server.RecvCalls

open Foundations.CStrings Foundations.LoopRuns Senders

/-- What a call of `recv` does: it hands over at most the bytes that are requested and leaves
`errno` at zero, or it returns -1. -/
inductive RecvOutcome (requested : ℕ)
  | data (received : List Byte) (hfits : received.length ≤ requested)
  | error (errno : Errno)

/-- The calls of `recv` on a connection: the number of the call, and the number of bytes. -/
abbrev Recv := ℕ → (requested : ℕ) → RecvOutcome requested

/-- The variables of `receive_request`, with the ranges of the slot that `recv` was given: where
they start and their lengths. -/
structure ReceiveState where
  message : List Byte
  received : ℤ
  retry : ℤ
  v : ℤ
  targets : List (ℤ × ℕ)

/-- How the loop is left: by a return, by the end of the program, or because its condition fails. -/
inductive ReceiveEnd
  | returned (status : RqstStat)
  | exitFailure
  | conditionFailed
  deriving DecidableEq, Repr

/-- The start of `receive_request` on a message slot. -/
def startReceive (message : List Byte) : ReceiveState where
  message := message
  received := 0
  retry := 2
  v := 0
  targets := []

/-- The bytes that the next call requests, a `size_t`. -/
def ReceiveState.requested (s : ReceiveState) : ℕ :=
  unsignedLong (httpMessageSize - s.received)

/-- The variables after a call that returned -1. -/
def ReceiveState.fail (s : ReceiveState) : ReceiveState :=
  { s with v := -1, targets := s.targets ++ [(s.received, s.requested)] }

/-- The variables after a call that handed over a piece. -/
def ReceiveState.store (s : ReceiveState) (piece : List Byte) : ReceiveState :=
  { s with
    message := overwrite s.message s.received.toNat piece
    v := piece.length
    targets := s.targets ++ [(s.received, s.requested)] }

/-- The control on the text in the slot, given what the searches find behind a slot that has no NUL.
-/
def control (behind : List Byte → Bool) (message : List Byte) : Bool :=
  (looksComplete message).getD (behind message)

/-- What the loop does with the result of a call. -/
def handleOutcome (behind : List Byte → Bool) (s : ReceiveState) {requested : ℕ} :
    RecvOutcome requested → Progress ReceiveState ReceiveEnd
  | .error .eintr | .error .eagain => .running { s.fail with retry := s.retry - 1 }
  | .error .econnreset | .error .ebadf => .ended s.fail (.returned .emptyMessage)
  | .error .other => .ended s.fail .exitFailure
  | .data piece _ =>
    if control behind (s.store piece).message then
      .ended { s.store piece with message := (s.store piece).message.set (httpMessageSize - 1) 0 }
        (.returned .requestReceived)
    else if piece = [] then .ended (s.store piece) (.returned .emptyMessage)
    else .running { s.store piece with received := s.received + piece.length }

/-- An iteration of the loop. -/
def receiveIteration (behind : List Byte → Bool) (recv : Recv) (s : ReceiveState) :
    Progress ReceiveState ReceiveEnd :=
  if s.retry < 0 then .ended s .conditionFailed
  else if s.retry = 0 ∧ s.v = -1 then .ended s (.returned .emptyMessage)
  else handleOutcome behind s (recv s.targets.length s.requested)

/-- `receive_request` after some iterations. -/
def receive (behind : List Byte → Bool) (recv : Recv) (message : List Byte) (iterations : ℕ) :
    Progress ReceiveState ReceiveEnd :=
  after (receiveIteration behind recv) (startReceive message) iterations

/-! ### The loop on a list of results -/

/-- Calls of `recv` with the results of a list. -/
def listed (results : List RecvResult) : Recv := fun call requested ↦
  match results[call]? with
  | some (.data piece) =>
    if hfits : piece.length ≤ requested then .data piece hfits else .error .other
  | some (.error errno) => .error errno
  | none => .error .other

/-- The variables in front of the rest of the results. -/
structure InFront (s : ReceiveState) (message : List Byte) (received : ℕ) (retry : ℤ)
    (failed : Bool) (call : ℕ) : Prop where
  message_eq : s.message = message
  received_eq : s.received = received
  received_le : received ≤ httpMessageSize
  retry_eq : s.retry = retry
  failed_iff : s.v = -1 ↔ failed = true
  call_eq : s.targets.length = call

variable {behind : List Byte → Bool} {recv : Recv} {s : ReceiveState} {message message' : List Byte}
variable {received call : ℕ} {retry : ℤ} {failed : Bool} {results rest : List RecvResult}
variable {status : RqstStat}

/-- The tests in front of a call return alike, or they go on to the call. -/
theorem enter_cases (hfront : InFront s message received retry failed call) {body : ReceiveOutcome}
    (hrun : enterLoop message retry failed results body = .returned status message' rest) :
    (receiveIteration behind recv s = .ended s (.returned status) ∧ s.message = message') ∨
      (¬ s.retry < 0 ∧ ¬ (s.retry = 0 ∧ s.v = -1)) ∧ body = .returned status message' rest := by
  unfold enterLoop at hrun
  rw [← hfront.retry_eq] at hrun
  simp only [← hfront.failed_iff] at hrun
  split_ifs at hrun with hloop hretries
  · rw [ReceiveOutcome.returned.injEq] at hrun
    refine Or.inl ⟨?_, hfront.message_eq.trans hrun.2.1⟩
    rw [receiveIteration, if_neg hloop, if_pos hretries, hrun.1]
  · exact Or.inr ⟨⟨hloop, hretries⟩, hrun⟩

/-- The variables in front of the next result. -/
theorem InFront.fail (hfront : InFront s message received retry failed call) :
    InFront { s.fail with retry := s.retry - 1 } message received (retry - 1) true (call + 1) where
  message_eq := hfront.message_eq
  received_eq := hfront.received_eq
  received_le := hfront.received_le
  retry_eq := by rw [hfront.retry_eq]
  failed_iff := iff_of_true rfl rfl
  call_eq := by
    rw [ReceiveState.fail, List.length_append, List.length_singleton, hfront.call_eq]

theorem InFront.store (hfront : InFront s message received retry failed call) {piece : List Byte}
    (hroom : received + piece.length ≤ httpMessageSize) :
    InFront { s.store piece with received := s.received + piece.length }
      (overwrite message received piece) (received + piece.length) retry false (call + 1) where
  message_eq := by
    rw [ReceiveState.store, hfront.message_eq, hfront.received_eq, Int.toNat_natCast]
  received_eq := by rw [hfront.received_eq, Int.natCast_add]
  received_le := hroom
  retry_eq := hfront.retry_eq
  failed_iff := by
    have hsome : (piece.length : ℤ) ≠ -1 := by omega
    exact iff_of_false hsome Bool.false_ne_true
  call_eq := by
    rw [ReceiveState.store, List.length_append, List.length_singleton, hfront.call_eq]

/-- The next call requests what is left of the slot. -/
theorem InFront.requested_eq (hfront : InFront s message received retry failed call) :
    s.requested = httpMessageSize - received := by
  have hle := hfront.received_le
  have hsize : httpMessageSize = 512 := rfl
  rw [ReceiveState.requested, hfront.received_eq, unsignedLong]
  rw [hsize] at hle ⊢
  omega

/-- A call that fails makes both loops return alike, or both go on. -/
theorem iteration_of_error (hfront : InFront s message received retry failed call) {errno : Errno}
    (hrecv : recv s.targets.length s.requested = .error errno)
    (hrun : receiveLoop message received retry failed (.error errno :: results) =
      .returned status message' rest) :
    (∃ t, receiveIteration behind recv s = .ended t (.returned status) ∧ t.message = message') ∨
      receiveIteration behind recv s = .running { s.fail with retry := s.retry - 1 } ∧
        receiveLoop message received (retry - 1) true results =
          .returned status message' rest := by
  rcases enter_cases hfront hrun with ⟨hended, hmessage⟩ | ⟨⟨hloop, hretries⟩, hbody⟩
  · exact Or.inl ⟨s, hended, hmessage⟩
  · rw [receiveIteration, if_neg hloop, if_neg hretries, hrecv]
    cases errno with
    | eintr => exact Or.inr ⟨rfl, hbody⟩
    | eagain => exact Or.inr ⟨rfl, hbody⟩
    | other => cases hbody
    | econnreset =>
      rw [ReceiveOutcome.returned.injEq] at hbody
      exact Or.inl ⟨s.fail, by rw [← hbody.1]; rfl, hfront.message_eq.trans hbody.2.1⟩
    | ebadf =>
      rw [ReceiveOutcome.returned.injEq] at hbody
      exact Or.inl ⟨s.fail, by rw [← hbody.1]; rfl, hfront.message_eq.trans hbody.2.1⟩

/-- A piece that fits makes both loops return alike, or both go on. -/
theorem iteration_of_data (hfront : InFront s message received retry failed call)
    {piece : List Byte} {hfits : piece.length ≤ s.requested}
    (hrecv : recv s.targets.length s.requested = .data piece hfits)
    (hrun : receiveLoop message received retry failed (.data piece :: results) =
      .returned status message' rest) :
    (∃ t, receiveIteration behind recv s = .ended t (.returned status) ∧ t.message = message') ∨
      receiveIteration behind recv s =
          .running { s.store piece with received := s.received + piece.length } ∧
        receiveLoop (overwrite message received piece) (received + piece.length) retry false
          results = .returned status message' rest := by
  rcases enter_cases hfront hrun with ⟨hended, hmessage⟩ | ⟨⟨hloop, hretries⟩, hbody⟩
  · exact Or.inl ⟨s, hended, hmessage⟩
  · have hroom : ¬ httpMessageSize - received < piece.length := by
      rw [← hfront.requested_eq]
      exact Nat.not_lt.mpr hfits
    have hstored : (s.store piece).message = overwrite message received piece := by
      rw [ReceiveState.store, hfront.message_eq, hfront.received_eq, Int.toNat_natCast]
    rw [if_neg hroom] at hbody
    rw [receiveIteration, if_neg hloop, if_neg hretries, hrecv, handleOutcome, control, hstored]
    cases hcontrol : looksComplete (overwrite message received piece) with
    | none => simp [hcontrol] at hbody
    | some complete =>
      simp only [hcontrol] at hbody
      cases complete with
      | true =>
        rw [ReceiveOutcome.returned.injEq] at hbody
        exact Or.inl ⟨_, by rw [← hbody.1]; rfl, hbody.2.1⟩
      | false =>
        simp only [Option.getD_some, Bool.false_eq_true, if_false]
        by_cases hnothing : piece = []
        · rw [if_pos hnothing, ReceiveOutcome.returned.injEq] at hbody
          exact Or.inl ⟨_, by rw [if_pos hnothing, ← hbody.1], hstored.trans hbody.2.1⟩
        · rw [if_neg hnothing] at hbody
          exact Or.inr ⟨if_neg hnothing, hbody⟩

/-- A piece that the loop on a list of results takes is one that the next call can hand over. -/
theorem fits_of_receiveLoop (hfront : InFront s message received retry failed call)
    {piece : List Byte}
    (hrun : receiveLoop message received retry failed (.data piece :: results) =
      .returned status message' rest) (hgoes : ¬ (s.retry = 0 ∧ s.v = -1)) :
    piece.length ≤ s.requested := by
  unfold receiveLoop enterLoop at hrun
  rw [← hfront.retry_eq] at hrun
  simp only [← hfront.failed_iff, if_neg hgoes] at hrun
  by_contra hexceeds
  rw [hfront.requested_eq, Nat.not_le] at hexceeds
  simp [hexceeds] at hrun

/-- The loop on a list of results ends where the loop with these results as calls ends. The
induction is on the results that are left. -/
theorem exists_ended_of_receiveLoop {done todo : List RecvResult}
    (hfront : InFront s message received retry failed done.length)
    (hrun : receiveLoop message received retry failed todo = .returned status message' rest) :
    ∃ iterations t,
      after (receiveIteration behind (listed (done ++ todo))) s iterations =
        .ended t (.returned status) ∧ t.message = message' := by
  induction todo generalizing s message received retry failed done with
  | nil =>
    rcases enter_cases hfront hrun with ⟨hended, hmessage⟩ | ⟨-, hwaiting⟩
    · exact ⟨1, s, hended, hmessage⟩
    · cases hwaiting
  | cons result todo ih =>
    have hcall : (done ++ result :: todo)[s.targets.length]? = some result := by
      rw [hfront.call_eq, List.getElem?_append_right (Nat.le_refl _), Nat.sub_self,
        List.getElem?_cons_zero]
    have hresults : done ++ result :: todo = (done ++ [result]) ++ todo := by
      rw [List.append_assoc, List.singleton_append]
    have hdone : (done ++ [result]).length = done.length + 1 := by
      rw [List.length_append, List.length_singleton]
    cases result with
    | error errno =>
      have hrecv : listed (done ++ .error errno :: todo) s.targets.length s.requested =
          .error errno := by
        simp only [listed, hcall]
      rcases iteration_of_error hfront hrecv hrun with ⟨t, hended, hmessage⟩ | ⟨hnext, hrest⟩
      · exact ⟨1, t, hended, hmessage⟩
      · obtain ⟨iterations, t, hended, hmessage⟩ := ih (hdone ▸ hfront.fail) hrest
        rw [← hresults] at hended
        exact ⟨1 + iterations, t, (after_one_add hnext _).trans hended, hmessage⟩
    | data piece =>
      by_cases hgiveUp : s.retry = 0 ∧ s.v = -1
      · rcases enter_cases hfront hrun with ⟨hended, hmessage⟩ | ⟨⟨-, hgoes⟩, -⟩
        · exact ⟨1, s, hended, hmessage⟩
        · exact absurd hgiveUp hgoes
      · have hfits := fits_of_receiveLoop hfront hrun hgiveUp
        have hrecv : listed (done ++ .data piece :: todo) s.targets.length s.requested =
            .data piece hfits := by
          simp only [listed, hcall, dif_pos hfits]
        rcases iteration_of_data hfront hrecv hrun with ⟨t, hended, hmessage⟩ | ⟨hnext, hrest⟩
        · exact ⟨1, t, hended, hmessage⟩
        · have hroom : received + piece.length ≤ httpMessageSize := by
            have hle := hfront.received_le
            rw [hfront.requested_eq] at hfits
            omega
          obtain ⟨iterations, t, hended, hmessage⟩ := ih (hdone ▸ hfront.store hroom) hrest
          rw [← hresults] at hended
          exact ⟨1 + iterations, t, (after_one_add hnext _).trans hended, hmessage⟩

/-- A call on a list of results that returns is a run of the loop with these results that returns
the same status and leaves the same slot. -/
theorem exists_ended_of_receiveRequest
    (hrun : receiveRequest message results = .returned status message' rest) :
    ∃ iterations t, receive behind (listed results) message iterations =
      .ended t (.returned status) ∧ t.message = message' := by
  have hfront : InFront (startReceive message) message 0 2 false ([] : List RecvResult).length :=
    { message_eq := rfl
      received_eq := rfl
      received_le := Nat.zero_le _
      retry_eq := rfl
      failed_iff := iff_of_false (by simp [startReceive]) Bool.false_ne_true
      call_eq := rfl }
  exact exists_ended_of_receiveLoop hfront hrun

end ImageApp.Server.RecvCalls
