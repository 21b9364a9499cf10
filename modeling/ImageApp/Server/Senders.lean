import ImageApp.Foundations.Extents
import ImageApp.Foundations.LoopRuns
import ImageApp.Server.Messages
import ImageApp.Server.Transmission
import Mathlib.Algebra.GroupWithZero.Nat
import Mathlib.Algebra.Ring.Int.Defs

/-!
# The senders call by call

`write_block` of `Utils.c` and the three senders of `Request.c`, one system call after the other.
What a call of `send` or `write` does is a function of the number of the call, of where in the
buffer it starts and of the number of bytes that it is asked for. A start is an integer, relative to
the buffer that the caller passes, because the pointers can leave it; of the bytes that were
accepted the positions are kept.

`write_block` and the senders of a page reach the end of a function without a `return`. To come back
so is no error, and to use the value that is missing is `SenderEnd.undefined`. The retries of
`send_image` call `send_file_fd` anew, so there is a `Sendfile` for each attempt. `MSG_MORE` is left
out, and so are the messages on `stderr`.
-/

set_option autoImplicit false
set_option relaxedAutoImplicit false

namespace ImageApp.Server.Senders

open Foundations.CStrings Foundations.Extents Foundations.LoopRuns

/-- What a call of `send` or `write` does: it accepts bytes, or returns -1 with `EAGAIN`, with
`EPIPE` or with another error. -/
inductive WriteResult
  | accepted (v : ℕ)
  | again
  | brokenPipe
  | failed
  deriving DecidableEq, Repr

/-- The calls of `send` or `write` on a connection: the number of the call, where it starts, and the
number of bytes. -/
abbrev Write := ℕ → ℤ → ℕ → WriteResult

/-- A number as an `unsigned long`. -/
def unsignedLong (value : ℤ) : ℕ :=
  (value % 2 ^ 64).toNat

theorem unsignedLong_natCast {n : ℕ} (hn : n < 2 ^ 64) : unsignedLong n = n := by
  rw [unsignedLong]
  omega

/-! ### `write_block` -/

/-- The variables of `write_block`, with the number of calls of `write` and the positions that were
written. -/
structure BlockState where
  calls : ℕ
  buf : ℤ
  size : ℕ
  v : ℤ
  written : List ℤ
  deriving DecidableEq

namespace BlockState

/-- Where the next call of `write` starts. The result of the last call is added here, too. -/
def start (s : BlockState) : ℤ :=
  s.buf + s.v

/-- The number of bytes that the next call of `write` is asked for. -/
def count (s : BlockState) : ℕ :=
  unsignedLong (s.size - s.v)

/-- The end of an iteration after a call that has returned `v`. -/
def advance (s : BlockState) (v : ℤ) (positions : List ℤ) : BlockState where
  calls := s.calls + 1
  buf := s.buf + v
  size := unsignedLong (s.size - v)
  v := v
  written := s.written ++ positions

end BlockState

/-- `write_block` on its way, or at its end with a value, which it has only for an error. -/
abbrev BlockProgress := Progress BlockState (Option RqstStat)

/-- One iteration of `write_block`. -/
def writeBlockIteration (write : Write) (s : BlockState) : BlockProgress :=
  if 0 < s.size then
    match write s.calls s.start s.count with
    | .accepted v => .running (s.advance v (extent s.start v))
    | .again => .running (s.advance (-1) [])
    | .brokenPipe => .ended { s with calls := s.calls + 1 } (some .connectionClosed)
    | .failed => .ended { s with calls := s.calls + 1 } (some .errorSendingMessage)
  else .ended s none

theorem writeBlockIteration_of_zero (write : Write) {s : BlockState} (hsize : s.size = 0) :
    writeBlockIteration write s = .ended s none := by
  rw [writeBlockIteration, if_neg (by omega)]

theorem writeBlockIteration_of_accepted {write : Write} {s : BlockState} {v : ℕ}
    (hsize : 0 < s.size) (hwrite : write s.calls s.start s.count = .accepted v) :
    writeBlockIteration write s = .running (s.advance v (extent s.start v)) := by
  rw [writeBlockIteration, if_pos hsize, hwrite]

theorem writeBlockIteration_of_again {write : Write} {s : BlockState} (hsize : 0 < s.size)
    (hwrite : write s.calls s.start s.count = .again) :
    writeBlockIteration write s = .running (s.advance (-1) []) := by
  rw [writeBlockIteration, if_pos hsize, hwrite]

/-- `write_block` after some iterations. -/
def writeBlock (write : Write) (s : BlockState) (iterations : ℕ) : BlockProgress :=
  after (writeBlockIteration write) s iterations

theorem writeBlock_succ_of_running {write : Write} {s t : BlockState} {k : ℕ}
    (hrunning : writeBlock write s k = .running t) :
    writeBlock write s (k + 1) = writeBlockIteration write t :=
  after_succ_of_running hrunning

theorem writeBlock_add_of_ended {write : Write} {s t : BlockState} {value : Option RqstStat} {k : ℕ}
    (hended : writeBlock write s k = .ended t value) (more : ℕ) :
    writeBlock write s (k + more) = .ended t value :=
  after_add_of_ended hended more

/-- `write_block` when its first call takes all that is left. -/
theorem writeBlock_of_whole {write : Write} {s : BlockState} (hv : s.v = 0) (hsize : 0 < s.size)
    (hbound : s.size < 2 ^ 64) (hwrite : write s.calls s.buf s.size = .accepted s.size) :
    writeBlock write s 2 =
      .ended ⟨s.calls + 1, s.buf + s.size, 0, s.size, s.written ++ extent s.buf s.size⟩ none := by
  have hstart : s.start = s.buf := by rw [BlockState.start, hv, Int.add_zero]
  have hcount : s.count = s.size := by
    rw [BlockState.count, hv, Int.sub_zero, unsignedLong_natCast hbound]
  have hcall : write s.calls s.start s.count = .accepted s.size := by rw [hstart, hcount, hwrite]
  have hone : writeBlock write s 1 = .running
      ⟨s.calls + 1, s.buf + s.size, 0, s.size, s.written ++ extent s.buf s.size⟩ := by
    rw [writeBlock_succ_of_running (s := s) rfl, writeBlockIteration_of_accepted hsize hcall,
      BlockState.advance, Int.sub_self, hstart]
    rfl
  rw [writeBlock_succ_of_running hone, writeBlockIteration_of_zero write rfl]

/-- `write_block` of a buffer at its start. -/
def startBlock (size : ℕ) : BlockState where
  calls := 0
  buf := 0
  size := size
  v := 0
  written := []

/-! ### The headers -/

/-- The variables of the loop that sends the headers, with the number of calls of `send` and the
positions that were sent. -/
structure HeaderState where
  calls : ℕ
  sent : ℕ
  written : List ℤ
  deriving DecidableEq

/-- The loop on its way, or at its end with whether `send` has returned -1. -/
abbrev HeaderProgress := Progress HeaderState Bool

/-- One iteration of the loop that sends the headers. Each call is asked for all of the string in
`msg`, also when it starts inside of it. -/
def sendHeaderIteration (send : Write) (msg : List Byte) (lenHeader : ℕ) (s : HeaderState) :
    HeaderProgress :=
  if s.sent < lenHeader then
    match send s.calls s.sent (untilNul msg).length with
    | .accepted v => .running ⟨s.calls + 1, s.sent + v, s.written ++ extent s.sent v⟩
    | _ => .ended { s with calls := s.calls + 1 } true
  else .ended s false

/-- The loop that sends the headers, after some iterations. -/
def sendHeader (send : Write) (msg : List Byte) (lenHeader iterations : ℕ) : HeaderProgress :=
  after (sendHeaderIteration send msg lenHeader) ⟨0, 0, []⟩ iterations

theorem sendHeader_succ_of_running {send : Write} {msg : List Byte} {lenHeader k : ℕ}
    {s : HeaderState} (hrunning : sendHeader send msg lenHeader k = .running s) :
    sendHeader send msg lenHeader (k + 1) = sendHeaderIteration send msg lenHeader s :=
  after_succ_of_running hrunning

theorem sendHeader_add_of_ended {send : Write} {msg : List Byte} {lenHeader k : ℕ}
    {s : HeaderState} {failed : Bool} (hended : sendHeader send msg lenHeader k = .ended s failed)
    (more : ℕ) : sendHeader send msg lenHeader (k + more) = .ended s failed :=
  after_add_of_ended hended more

/-! ### The pages -/

/-- How a sender comes back: with a value, at its end without one, or by using a value that is
missing. -/
inductive SenderEnd
  | returned (value : RqstStat)
  | noValue
  | undefined
  deriving DecidableEq

/-- The variables of the loops that send a page, with the number of calls of `write` and the
positions that were written. -/
structure PageState where
  calls : ℕ
  w : ℤ
  written : List ℤ
  deriving DecidableEq

/-- `len_bad - w` or `len_ser - w`. -/
def PageState.left (s : PageState) (len : ℕ) : ℕ :=
  unsignedLong (len - s.w)

/-- The call of `write_block` for what is left of a page. -/
def PageState.startBlock (s : PageState) (len : ℕ) : BlockState where
  calls := s.calls
  buf := s.w
  size := s.left len
  v := 0
  written := s.written

/-- The two loops that send a page of `len` bytes. `write_block` returns only errors, and `errno` is
not `EAGAIN` then. -/
def sendPageLoop (write : Write) (len : ℕ) (retry : ℕ) (s : PageState) :
    ℕ → Option (SenderEnd × PageState)
  | 0 => none
  | fuel + 1 =>
    if 0 < retry then
      if 0 < s.left len then
        match writeBlock write (s.startBlock len) fuel with
        | .running _ => none
        | .ended block none => some (.undefined, ⟨block.calls, s.w, block.written⟩)
        | .ended block (some value) =>
          if value.code = -1 then
            some (.returned .errorSendingMessage, ⟨block.calls, s.w, block.written⟩)
          else
            sendPageLoop write len retry ⟨block.calls, s.w + value.code, block.written⟩ fuel
      else if s.left len ≠ 0 ∧ retry ≠ 0 then sendPageLoop write len (retry - 1) s fuel
      else if s.left len ≠ 0 ∧ retry = 0 then some (.returned .errorSendingMessage, s)
      else some (.noValue, s)
    else some (.noValue, s)

/-- `retry` of the senders. -/
def senderRetry : ℕ := 5

/-- The part of a page's sender behind the headers. -/
def sendPageBody (write : Write) (len fuel : ℕ) : Option (SenderEnd × PageState) :=
  sendPageLoop write len senderRetry ⟨0, 0, []⟩ fuel

/-- What the two senders of a page have in common: the headers for the page, and the page with its
NUL. -/
def sendErrorPage (send write : Write) (page : List Byte) (fuel : ℕ) :
    Option (SenderEnd × PageState) :=
  let len := (untilNul page).length + 1
  let msg := buildMessage len false page
  match sendHeader send (msg ++ [0]) msg.length fuel with
  | .running _ => none
  | .ended _ true => some (.returned .errorSendingMessage, ⟨0, 0, []⟩)
  | .ended _ false => sendPageBody write len fuel

/-- `send_bad_request`. -/
def sendBadRequest (send write : Write) (pages : Pages) (fuel : ℕ) :
    Option (SenderEnd × PageState) :=
  sendErrorPage send write pages.badRequest fuel

/-- `send_service_unavailable`. -/
def sendServiceUnavailable (send write : Write) (pages : Pages) (fuel : ℕ) :
    Option (SenderEnd × PageState) :=
  sendErrorPage send write pages.serviceUnavailable fuel

/-! ### The image -/

/-- What `send_file_fd` returns, the bytes that it has put on the connection, and what its calls of
`sendfile` have done. -/
structure TransferEnd where
  value : ℤ
  sent : List Byte
  results : List SendfileResult
  deriving DecidableEq

/-- The loop of `send_file_fd`, as in `sendFileLoop`, with the results of the calls. -/
def transferLoop (sendfile : Sendfile) (file : List Byte) (size call len offset : ℕ)
    (sent : List Byte) (results : List SendfileResult) : ℕ → Option TransferEnd
  | 0 => none
  | fuel + 1 =>
    if len < size then
      match sendfile call offset (size - len) with
      | .brokenPipe => some ⟨RqstStat.connectionClosed.code, sent, results ++ [.brokenPipe]⟩
      | .failed => some ⟨RqstStat.errorSendingMessage.code, sent, results ++ [.failed]⟩
      | .sent v =>
        transferLoop sendfile file size (call + 1) (len + v) (offset + v + v)
          (sent ++ (file.drop offset).take v) (results ++ [.sent v]) fuel
    else some ⟨len, sent, results⟩

/-- The results of the calls are only kept. -/
theorem transferLoop_map (sendfile : Sendfile) (file : List Byte) (size : ℕ) (fuel : ℕ)
    (call len offset : ℕ) (sent : List Byte) (results : List SendfileResult) :
    (transferLoop sendfile file size call len offset sent results fuel).map
        (fun transfer ↦ (transfer.value, transfer.sent)) =
      sendFileLoop sendfile file size call len offset sent fuel := by
  induction fuel generalizing call len offset sent results with
  | zero => rfl
  | succ fuel ih =>
    rw [transferLoop, sendFileLoop]
    by_cases hlen : len < size
    · rw [if_pos hlen, if_pos hlen]
      cases sendfile call offset (size - len) with
      | brokenPipe => rfl
      | failed => rfl
      | sent v => exact ih _ _ _ _ _
    · rw [if_neg hlen, if_neg hlen]
      rfl

/-- How `send_image` comes back, with the bytes of the file that it has put on the connection and
what its calls of `sendfile` have done. -/
structure ImageEnd where
  ended : SenderEnd
  sent : List Byte
  results : List SendfileResult
  deriving DecidableEq

/-- The retry loop of `send_image`. -/
def sendImageLoop (sendfile : ℕ → Sendfile) (file : List Byte) (fileSize attempt retry : ℕ)
    (sent : List Byte) (results : List SendfileResult) : ℕ → Option ImageEnd
  | 0 => none
  | fuel + 1 =>
    if 0 < retry then
      match transferLoop (sendfile attempt) file fileSize 0 0 0 sent results fuel with
      | none => none
      | some transfer =>
        if transfer.value = RqstStat.errorSendingMessage.code then
          some ⟨.returned .errorSendingMessage, transfer.sent, transfer.results⟩
        else if transfer.value = RqstStat.connectionClosed.code then
          some ⟨.returned .connectionClosed, transfer.sent, transfer.results⟩
        else if transfer.value ≠ fileSize then
          sendImageLoop sendfile file fileSize (attempt + 1) (retry - 1) transfer.sent
            transfer.results fuel
        else some ⟨.returned .ok, transfer.sent, transfer.results⟩
    else some ⟨.returned .ok, sent, results⟩

/-- `send_image` of a file with the size that the server has for it. -/
def sendImage (send : Write) (sendfile : ℕ → Sendfile) (file : List Byte) (fileSize : ℕ)
    (cmd : RqstStat) (fuel : ℕ) : Option ImageEnd :=
  let msg := buildMessage fileSize true []
  match sendHeader send (msg ++ [0]) msg.length fuel with
  | .running _ => none
  | .ended _ true => some ⟨.returned .errorSendingMessage, [], []⟩
  | .ended _ false =>
    if cmd = .getCmd then sendImageLoop sendfile file fileSize 0 senderRetry [] [] fuel
    else some ⟨.noValue, [], []⟩

end ImageApp.Server.Senders
