import ImageApp.Server.Config
import Mathlib.Data.List.GetD

/-!
# Receiving a request

The loop of `receive_request`: it reads into a message slot until the text in the slot looks like a
complete request, which it decides by looking for three header names. The list of results stands for
what the calls of `recv` return, in order. The slot is kept as it is when the loop starts, so what
an earlier request left in it takes part in the test.

`receiveLoop_data` is the step of the loop on a slot that holds the bytes received so far and zeros
behind them.
-/

set_option autoImplicit false
set_option relaxedAutoImplicit false

namespace ImageApp.Server

open Foundations.CStrings

/-- The values of `errno` that the loop tells apart. -/
inductive Errno
  | eintr
  | eagain
  | econnreset
  | ebadf
  | other
  deriving DecidableEq, Repr

/-- What a call of `recv` does: it hands over bytes, none when the client has shut down, or it
fails. -/
inductive RecvResult
  | data (received : List Byte)
  | error (errno : Errno)
  deriving DecidableEq, Repr

/-- How a call of `receive_request` ends. It waits when no further result is there, it ends the
program on an unknown error, and `unspecified` stands for a search that runs off the slot, for the
missing return behind the loop, and for a list of results that no `recv` gives. -/
inductive ReceiveOutcome
  | returned (status : RqstStat) (message : List Byte) (rest : List RecvResult)
  | waiting
  | exitFailure
  | unspecified
  deriving DecidableEq, Repr

/-- The control on the text in the slot: whether all three header names occur, `none` when one of
the searches runs off the slot. -/
def looksComplete (message : List Byte) : Option Bool :=
  if message.head? = some 0 then some false
  else
    (searchRegion message (bytes "User-Agent")).bind fun tmp1 ↦
      (searchRegion message (bytes "Accept: ")).bind fun tmp2 ↦
        (searchRegion message (bytes "Connection: ")).map fun tmp3 ↦ tmp1 && tmp2 && tmp3

/-- The two tests before a call of `recv`: the condition of the loop, and the return after the last
retry; `failed` says that the last `recv` returned `-1`. -/
def enterLoop (message : List Byte) (retry : ℤ) (failed : Bool) (results : List RecvResult)
    (body : ReceiveOutcome) : ReceiveOutcome :=
  if retry < 0 then .unspecified
  else if retry = 0 ∧ failed = true then .returned .emptyMessage message results
  else body

/-- The loop of `receive_request`. -/
def receiveLoop (message : List Byte) (received : ℕ) (retry : ℤ) (failed : Bool) :
    List RecvResult → ReceiveOutcome
  | [] => enterLoop message retry failed [] .waiting
  | .error errno :: rest =>
    enterLoop message retry failed (.error errno :: rest) <|
      match errno with
      | .eintr | .eagain => receiveLoop message received (retry - 1) true rest
      | .econnreset | .ebadf => .returned .emptyMessage message rest
      | .other => .exitFailure
  | .data piece :: rest =>
    enterLoop message retry failed (.data piece :: rest) <|
      -- A call never hands over more bytes than there is room for.
      if httpMessageSize - received < piece.length then .unspecified
      else
        match looksComplete (overwrite message received piece) with
        | none => .unspecified
        | some true =>
          .returned .requestReceived
            ((overwrite message received piece).set (httpMessageSize - 1) 0) rest
        | some false =>
          if piece = [] then .returned .emptyMessage (overwrite message received piece) rest
          else
            receiveLoop (overwrite message received piece) (received + piece.length) retry false
              rest

/-- `receive_request` on a message slot. -/
def receiveRequest (message : List Byte) (results : List RecvResult) : ReceiveOutcome :=
  receiveLoop message 0 2 false results

/-! ### How a call returns -/

/-- The tests before a call of `recv` return an empty message, or go on. -/
theorem enterLoop_cases {message message' : List Byte} {retry : ℤ} {failed : Bool}
    {results rest : List RecvResult} {body : ReceiveOutcome} {status : RqstStat}
    (hrun : enterLoop message retry failed results body = .returned status message' rest) :
    (status = .emptyMessage ∧ message' = message) ∨ body = .returned status message' rest := by
  unfold enterLoop at hrun
  split_ifs at hrun with hloop hretries
  · rw [ReceiveOutcome.returned.injEq] at hrun
    exact Or.inl ⟨hrun.1.symm, hrun.2.1.symm⟩
  · exact Or.inr hrun

/-- With no further result the loop can only return an empty message. -/
theorem receiveLoop_nil_cases {message message' : List Byte} {received : ℕ} {retry : ℤ}
    {failed : Bool} {rest : List RecvResult} {status : RqstStat}
    (hrun : receiveLoop message received retry failed [] = .returned status message' rest) :
    status = .emptyMessage ∧ message' = message := by
  rcases enterLoop_cases hrun with hempty | hwaiting
  · exact hempty
  · simp at hwaiting

/-- What the loop does with a result before it returns: it returns an empty message and leaves the
slot, it retries, or it stores a piece and goes by the control on the slot. -/
theorem receiveLoop_cons_cases {message message' : List Byte} {received : ℕ} {retry : ℤ}
    {failed : Bool} {result : RecvResult} {results rest : List RecvResult} {status : RqstStat}
    (hrun : receiveLoop message received retry failed (result :: results) =
      .returned status message' rest) :
    (status = .emptyMessage ∧ message' = message) ∨
    (∃ errno, result = .error errno ∧
      receiveLoop message received (retry - 1) true results = .returned status message' rest) ∨
    ∃ piece, result = .data piece ∧ piece.length ≤ httpMessageSize - received ∧
      ((looksComplete (overwrite message received piece) = some true ∧
          status = .requestReceived ∧ rest = results ∧
          message' = (overwrite message received piece).set (httpMessageSize - 1) 0) ∨
        (looksComplete (overwrite message received piece) = some false ∧
          ((status = .emptyMessage ∧ message' = overwrite message received piece) ∨
            (piece ≠ [] ∧
              receiveLoop (overwrite message received piece) (received + piece.length) retry false
                results = .returned status message' rest)))) := by
  cases result with
  | error errno =>
    rcases enterLoop_cases hrun with hempty | hbody
    · exact Or.inl hempty
    · cases errno with
      | eintr => exact Or.inr (Or.inl ⟨.eintr, rfl, hbody⟩)
      | eagain => exact Or.inr (Or.inl ⟨.eagain, rfl, hbody⟩)
      | other => simp at hbody
      | _ =>
        simp only [ReceiveOutcome.returned.injEq] at hbody
        exact Or.inl ⟨hbody.1.symm, hbody.2.1.symm⟩
  | data piece =>
    rcases enterLoop_cases hrun with hempty | hbody
    · exact Or.inl hempty
    · have hroom : ¬ httpMessageSize - received < piece.length := by
        intro hexceeds
        simp [hexceeds] at hbody
      rw [if_neg hroom] at hbody
      refine Or.inr (Or.inr ⟨piece, rfl, Nat.not_lt.mp hroom, ?_⟩)
      cases hcontrol : looksComplete (overwrite message received piece) with
      | none => simp [hcontrol] at hbody
      | some complete =>
        cases complete with
        | true =>
          simp only [hcontrol, ReceiveOutcome.returned.injEq] at hbody
          exact Or.inl ⟨rfl, hbody.1.symm, hbody.2.2.symm, hbody.2.1.symm⟩
        | false =>
          simp only [hcontrol] at hbody
          refine Or.inr ⟨rfl, ?_⟩
          by_cases hempty : piece = []
          · simp only [hempty, if_true, ReceiveOutcome.returned.injEq] at hbody
            exact Or.inl ⟨hbody.1.symm, by rw [hempty, hbody.2.1]⟩
          · rw [if_neg hempty] at hbody
            exact Or.inr ⟨hempty, hbody⟩

/-- A call returns a request or an empty message. -/
theorem status_of_receiveLoop {message message' : List Byte} {received : ℕ} {retry : ℤ}
    {failed : Bool} {results rest : List RecvResult} {status : RqstStat}
    (hrun : receiveLoop message received retry failed results = .returned status message' rest) :
    status = .requestReceived ∨ status = .emptyMessage := by
  induction results generalizing message received retry failed with
  | nil => exact Or.inr (receiveLoop_nil_cases hrun).1
  | cons result results ih =>
    rcases receiveLoop_cons_cases hrun with hempty | ⟨errno, -, hnext⟩ | ⟨piece, -, -, hpiece⟩
    · exact Or.inr hempty.1
    · exact ih hnext
    · rcases hpiece with ⟨-, hstatus, -⟩ | ⟨-, hempty | ⟨-, hnext⟩⟩
      · exact Or.inl hstatus
      · exact Or.inr hempty.1
      · exact ih hnext

/-! ### Slots that hold a text and zeros -/

/-- A message slot with a text at its start and zeros behind it. -/
def padded (text : List Byte) : List Byte :=
  text ++ zeros (httpMessageSize - text.length)

/-- Receiving behind the text. -/
theorem overwrite_padded (text piece : List Byte) :
    overwrite (padded text) text.length piece = padded (text ++ piece) := by
  rw [padded, overwrite_append, padded, zeros, zeros, List.drop_replicate, List.length_append,
    Nat.sub_sub]

/-- The byte of a slot at an offset: the byte of the text, or zero. -/
theorem getD_padded (text : List Byte) (offset : ℕ) :
    (padded text).getD offset 0 = text.getD offset 0 := by
  rw [padded]
  by_cases hlt : offset < text.length
  · rw [List.getD_append _ _ _ _ hlt]
  · rw [List.getD_append_right _ _ _ _ (by omega), zeros, List.getD_eq_default text 0 (by omega)]
    by_cases hroom : offset - text.length < httpMessageSize - text.length
    · rw [List.getD_replicate _ hroom]
    · rw [List.getD_eq_default]
      rw [List.length_replicate]
      omega

/-- The NUL that ends a received request is there already when the request leaves room for it. -/
theorem set_padded {text : List Byte} (hlength : text.length < httpMessageSize) :
    (padded text).set (httpMessageSize - 1) 0 = padded text := by
  obtain ⟨spare, hspare⟩ : ∃ spare, httpMessageSize - text.length = spare + 1 :=
    ⟨httpMessageSize - text.length - 1, by omega⟩
  have hzeros : zeros (spare + 1) = zeros spare ++ [0] := List.replicate_succ'
  have hfront : (text ++ zeros spare).length = httpMessageSize - 1 := by
    rw [List.length_append, length_zeros]
    omega
  rw [padded, hspare, hzeros, ← List.append_assoc, List.set_append_right _ _ hfront.le, hfront,
    Nat.sub_self, List.set_cons_zero]

/-- The step of the loop on a slot that holds what was received so far. -/
theorem receiveLoop_data {text piece : List Byte} {retry : ℤ} (hretry : 0 < retry)
    (hroom : text.length + piece.length ≤ httpMessageSize) (hpiece : piece ≠ [])
    (rest : List RecvResult) :
    receiveLoop (padded text) text.length retry false (.data piece :: rest) =
      match looksComplete (padded (text ++ piece)) with
      | none => .unspecified
      | some true =>
        .returned .requestReceived ((padded (text ++ piece)).set (httpMessageSize - 1) 0) rest
      | some false =>
        receiveLoop (padded (text ++ piece)) (text ++ piece).length retry false rest := by
  have hfits : ¬ httpMessageSize - text.length < piece.length := by omega
  have hloop : ¬ retry < 0 := by omega
  have hretries : ¬ (retry = 0 ∧ false = true) := by simp
  simp only [receiveLoop, enterLoop, hloop, hretries, hfits, if_false, overwrite_padded, hpiece,
    List.length_append]

/-! ### Slots that hold nothing -/

/-- None of the results hands over a byte other than zero. -/
def handsOverNothing (results : List RecvResult) : Bool :=
  results.all fun result ↦
    match result with
    | .data piece => piece.all (· == 0)
    | .error _ => true

/-- Zeros written over zeros change nothing. -/
theorem overwrite_zeros {size offset : ℕ} {piece : List Byte} (hfits : piece.length ≤ size - offset)
    (hpiece : piece.all (· == 0) = true) : overwrite (zeros size) offset piece = zeros size := by
  have hzeros : piece = zeros piece.length := by
    refine List.eq_replicate_iff.mpr ⟨rfl, fun byte hbyte ↦ ?_⟩
    exact eq_of_beq (List.all_eq_true.mp hpiece byte hbyte)
  rw [overwrite, hzeros, zeros, zeros, List.length_replicate, List.take_replicate,
    List.drop_replicate, List.replicate_append_replicate, List.replicate_append_replicate]
  congr 1
  omega

/-- A call on a zeroed slot that is handed over nothing leaves the slot zeroed. -/
theorem receiveLoop_zeros {message' : List Byte} {received : ℕ} {retry : ℤ} {failed : Bool}
    {results rest : List RecvResult} {status : RqstStat}
    (hnothing : handsOverNothing results = true)
    (hrun : receiveLoop (zeros httpMessageSize) received retry failed results =
      .returned status message' rest) : message' = zeros httpMessageSize := by
  induction results generalizing received retry failed with
  | nil => exact (receiveLoop_nil_cases hrun).2
  | cons result results ih =>
    rw [handsOverNothing, List.all_cons, Bool.and_eq_true] at hnothing
    rcases receiveLoop_cons_cases hrun with hempty | ⟨errno, -, hnext⟩ | ⟨piece, rfl, hfits, hpiece⟩
    · exact hempty.2
    · exact ih hnothing.2 hnext
    · rw [overwrite_zeros hfits hnothing.1] at hpiece
      rcases hpiece with ⟨hcontrol, -⟩ | ⟨-, hempty | ⟨-, hnext⟩⟩
      · exact absurd hcontrol (by decide)
      · exact hempty.2
      · exact ih hnothing.2 hnext

/-! ### A request -/

/-- A request up to the name of its last header. -/
def photoHead : List Byte :=
  bytes "GET /?photo.jpg HTTP/1.1\r\nUser-Agent: browser\r\nAccept: image/*\r\nConnection: "

/-- The rest of that request. -/
def photoTail : List Byte :=
  bytes "close\r\n\r\n"

end ImageApp.Server
