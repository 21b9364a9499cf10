import ImageApp.Responses.HeaderSends

/-!
# A page whose transfer fails

`write_block` returns `CONNECTION_CLOSED` or `ERROR_SENDING_MESSAGE` when `write` fails, and its
callers compare the result with -1. So they take the code for a number of bytes: they add it to `w`
and go on with the rest of the page (`sendPageLoop_of_failure`), and nothing in the part behind the
headers returns a value (`sendPageLoop_ne_returned`). `not_reportsFailure` is the result for the two
senders.
-/

set_option autoImplicit false
set_option relaxedAutoImplicit false

namespace ImageApp.Responses

open Foundations.CStrings Foundations.Extents Foundations.LoopRuns Server Server.Senders

/-- The number of bytes of a page with its NUL. -/
def pageLength (page : List Byte) : ℕ :=
  (untilNul page).length + 1

/-- The headers for a page have been sent. -/
def PageHeaderSent (send : Write) (page : List Byte) : Prop :=
  ∃ k s, sendHeader send (buildMessage (pageLength page) false page ++ [0])
    (buildMessage (pageLength page) false page).length k = .ended s false

/-- `write` fails while `write_block` sends a page, with the state in which it has failed. -/
def FailsIn (write : Write) (page : List Byte) (block : BlockState) : Prop :=
  ∃ k value, writeBlock write (startBlock (pageLength page)) k = .ended block (some value)

/-- A sender reports that `write` has failed: it calls `write` no more, and returns an error, and
`w` is the number of bytes that were written, which is not more than the page has. -/
def ReportsFailure (sender : ℕ → Option (SenderEnd × PageState)) (block : BlockState)
    (page : List Byte) : Prop :=
  ∃ fuel s, sender fuel = some (.returned .errorSendingMessage, s) ∧ s.calls = block.calls ∧
    s.w = s.written.length ∧ s.w ≤ pageLength page

/-- No code is -1. -/
theorem code_nonneg (value : RqstStat) : 0 ≤ value.code := by
  cases value <;> decide

/-- The loops of a sender take the code of an error for a number of bytes and go on. -/
theorem sendPageLoop_of_failure {write : Write} {len retry fuel : ℕ} {s : PageState}
    {block : BlockState} {value : RqstStat} (hretry : 0 < retry) (hleft : 0 < s.left len)
    (hended : writeBlock write (s.startBlock len) fuel = .ended block (some value)) :
    sendPageLoop write len retry s (fuel + 1) =
      sendPageLoop write len retry ⟨block.calls, s.w + value.code, block.written⟩ fuel := by
  have hcode : ¬ value.code = -1 := by
    have hnonneg := code_nonneg value
    omega
  rw [sendPageLoop, if_pos hretry, if_pos hleft, hended]
  simp only [if_neg hcode]

/-- Nothing behind the headers returns a value. -/
theorem sendPageLoop_ne_returned (write : Write) (len : ℕ) {retry fuel : ℕ} {s t : PageState}
    {value : RqstStat} : sendPageLoop write len retry s fuel ≠ some (.returned value, t) := by
  induction fuel generalizing retry s with
  | zero => exact nofun
  | succ fuel ih =>
    rcases Nat.eq_zero_or_pos retry with hnone | hretry
    · rw [sendPageLoop, if_neg (by omega)]
      exact nofun
    rcases Nat.eq_zero_or_pos (s.left len) with hdone | hleft
    · rw [sendPageLoop, if_pos hretry, if_neg (by omega), if_neg (by omega), if_neg (by omega)]
      exact nofun
    · cases hprogress : writeBlock write (s.startBlock len) fuel with
      | running block =>
        rw [sendPageLoop, if_pos hretry, if_pos hleft, hprogress]
        exact nofun
      | ended block result =>
        cases result with
        | none =>
          rw [sendPageLoop, if_pos hretry, if_pos hleft, hprogress]
          exact nofun
        | some error =>
          rw [sendPageLoop_of_failure hretry hleft hprogress]
          exact ih

/-- Once the headers are sent, the sender of a page returns no value. -/
theorem sendErrorPage_ne_returned {send : Write} {page : List Byte}
    (hheader : PageHeaderSent send page) (write : Write) {fuel : ℕ} {s : PageState}
    {value : RqstStat} : sendErrorPage send write page fuel ≠ some (.returned value, s) := by
  obtain ⟨k, t, hended⟩ := hheader
  rw [sendErrorPage, ← pageLength]
  cases hprogress : sendHeader send (buildMessage (pageLength page) false page ++ [0])
      (buildMessage (pageLength page) false page).length fuel with
  | running u =>
    exact nofun
  | ended u failed =>
    obtain ⟨-, rfl⟩ := eq_of_ended hprogress hended
    exact sendPageLoop_ne_returned write (pageLength page)

/-- After a first failure the sender goes on with the byte of the page whose number is the code. -/
theorem sendPageBody_of_failure {write : Write} {len fuel : ℕ} {block : BlockState}
    {value : RqstStat} (hlen : 0 < len) (hbound : len < 2 ^ 64)
    (hended : writeBlock write (startBlock len) fuel = .ended block (some value)) :
    sendPageBody write len (fuel + 1) =
      sendPageLoop write len senderRetry ⟨block.calls, value.code, block.written⟩ fuel := by
  have hleft : (⟨0, 0, []⟩ : PageState).left len = len := by
    rw [PageState.left, Int.sub_zero, unsignedLong]
    omega
  have hstart : (⟨0, 0, []⟩ : PageState).startBlock len = startBlock len := by
    rw [PageState.startBlock, hleft]
    rfl
  rw [← hstart] at hended
  rw [sendPageBody, sendPageLoop_of_failure (by decide) (hleft.symm ▸ hlen) hended, Int.zero_add]

/-- The two senders of a page never report that `write` has failed. -/
theorem not_reportsFailure {send write : Write} {pages : Pages} {block : BlockState} :
    (PageHeaderSent send pages.badRequest → FailsIn write pages.badRequest block →
        ¬ ReportsFailure (Senders.sendBadRequest send write pages) block pages.badRequest) ∧
      (PageHeaderSent send pages.serviceUnavailable →
        FailsIn write pages.serviceUnavailable block →
        ¬ ReportsFailure (Senders.sendServiceUnavailable send write pages) block
          pages.serviceUnavailable) := by
  constructor
  · rintro hheader - ⟨fuel, s, hreturned, -⟩
    exact sendErrorPage_ne_returned hheader write hreturned
  · rintro hheader - ⟨fuel, s, hreturned, -⟩
    exact sendErrorPage_ne_returned hheader write hreturned

/-- Calls of `write` of which the first one fails because the client is gone. -/
def failsFirst : Write :=
  fun call _ count ↦ if call = 0 then .brokenPipe else .accepted count

/-- The first call for a page fails. -/
theorem failsIn_failsFirst (page : List Byte) :
    FailsIn failsFirst page ⟨1, 0, pageLength page, 0, []⟩ := by
  have hsome : 0 < (startBlock (pageLength page)).size := Nat.succ_pos _
  refine ⟨1, .connectionClosed, ?_⟩
  rw [writeBlock_succ_of_running (s := startBlock (pageLength page)) rfl, writeBlockIteration,
    if_pos hsome]
  rfl

/-- Behind the failure the sender writes the rest of the page from its 13th byte on, and then uses
the value that `write_block` does not return. -/
theorem sendPageBody_failsFirst {len : ℕ} (hlen : 12 < len) (hbound : len < 2 ^ 64) :
    sendPageBody failsFirst len 4 = some (.undefined, ⟨2, 12, extent 12 (len - 12)⟩) := by
  have hpos : 0 < len := Nat.zero_lt_of_lt hlen
  have hfailed : writeBlock failsFirst (startBlock len) 3 =
      .ended ⟨1, 0, len, 0, []⟩ (some .connectionClosed) := by
    have hone : writeBlock failsFirst (startBlock len) 1 =
        .ended ⟨1, 0, len, 0, []⟩ (some .connectionClosed) := by
      have hsome : 0 < (startBlock len).size := hpos
      rw [writeBlock_succ_of_running (s := startBlock len) rfl, writeBlockIteration, if_pos hsome]
      rfl
    exact writeBlock_add_of_ended hone 2
  have hleft : (⟨1, 12, []⟩ : PageState).left len = len - 12 := by
    rw [PageState.left, unsignedLong]
    simp only
    omega
  have hrest : writeBlock failsFirst ((⟨1, 12, []⟩ : PageState).startBlock len) 2 =
      .ended ⟨2, 12 + (len - 12 : ℕ), 0, (len - 12 : ℕ), extent 12 (len - 12)⟩ none := by
    rw [PageState.startBlock, hleft]
    exact writeBlock_of_whole rfl (Nat.sub_pos_of_lt hlen) (by simp only; omega) rfl
  have hnext : sendPageLoop failsFirst len senderRetry ⟨1, 12, []⟩ 3 =
      some (.undefined, ⟨2, 12, extent 12 (len - 12)⟩) := by
    rw [sendPageLoop, if_pos (by decide), if_pos (hleft.symm ▸ Nat.sub_pos_of_lt hlen), hrest]
  rw [sendPageBody_of_failure hpos hbound hfailed]
  exact hnext

/-- Both senders of the server's own pages, with a first call of `write` that fails. -/
theorem not_reportsFailure_failsFirst :
    PageHeaderSent sendAll htmlResponse.badRequest ∧
      PageHeaderSent sendAll htmlResponse.serviceUnavailable ∧
      ¬ ReportsFailure (Senders.sendBadRequest sendAll failsFirst htmlResponse)
        ⟨1, 0, pageLength htmlResponse.badRequest, 0, []⟩ htmlResponse.badRequest ∧
      ¬ ReportsFailure (Senders.sendServiceUnavailable sendAll failsFirst htmlResponse)
        ⟨1, 0, pageLength htmlResponse.serviceUnavailable, 0, []⟩
        htmlResponse.serviceUnavailable := by
  have hbad := exists_ended_sendAll (pageLength htmlResponse.badRequest) false
    htmlResponse.badRequest
  have hunavailable := exists_ended_sendAll (pageLength htmlResponse.serviceUnavailable) false
    htmlResponse.serviceUnavailable
  exact ⟨hbad, hunavailable, not_reportsFailure.1 hbad (failsIn_failsFirst _),
    not_reportsFailure.2 hunavailable (failsIn_failsFirst _)⟩

/-- The client of a bad request is gone when the page is sent. The sender takes the 12 of
`CONNECTION_CLOSED` for twelve bytes and writes the rest of the page. -/
theorem exists_not_reportsFailure :
    (¬ ∀ (send write : Write) (pages : Pages) (block : BlockState),
      PageHeaderSent send pages.badRequest → FailsIn write pages.badRequest block →
      ReportsFailure (Senders.sendBadRequest send write pages) block pages.badRequest) ∧
      ∃ len, len = pageLength htmlResponse.badRequest ∧
        sendPageBody failsFirst len 4 = some (.undefined, ⟨2, 12, extent 12 (len - 12)⟩) := by
  obtain ⟨hpage, hnul⟩ := badRequest_text
  have hlength : pageLength htmlResponse.badRequest = 291 := by
    rw [pageLength, untilNul_of_notMem hnul, hpage]
  refine ⟨fun hreports ↦ ?_, _, rfl, sendPageBody_failsFirst (by omega) (by omega)⟩
  have hheader := exists_ended_sendAll (pageLength htmlResponse.badRequest) false
    htmlResponse.badRequest
  obtain ⟨fuel, s, hreturned, -⟩ := hreports sendAll failsFirst htmlResponse _ hheader
    (failsIn_failsFirst _)
  exact sendErrorPage_ne_returned hheader failsFirst hreturned

end ImageApp.Responses
