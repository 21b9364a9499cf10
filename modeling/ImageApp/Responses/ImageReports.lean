import ImageApp.Responses.HeaderSends

/-!
# What `send_image` reports

`send_file_fd` returns the number of bytes that it has sent, or `CONNECTION_CLOSED` or
`ERROR_SENDING_MESSAGE`, which are 12 and 11. So the complete transfer of a file of 11 or of 12
bytes looks like an error to `send_image`; `reportsTransfer_iff` says that this is the only case in
which it reports what did not happen.
-/

set_option autoImplicit false
set_option relaxedAutoImplicit false

namespace ImageApp.Responses

open Foundations.CStrings Foundations.LoopRuns Server Server.Senders

/-- What happens to a transfer. -/
inductive TransferOutcome
  | complete
  | brokenPipe
  | failed
  deriving DecidableEq, Repr

/-- The calls of `sendfile` with these outcomes, for each attempt and each call in it. -/
def transfers (outcomes : ℕ → ℕ → TransferOutcome) : ℕ → Sendfile :=
  fun attempt call _ count ↦
    match outcomes attempt call with
    | .complete => .sent count
    | .brokenPipe => .brokenPipe
    | .failed => .failed

/-- The headers for an image of the given size have been sent. -/
def HeaderSent (send : Write) (fileSize : ℕ) : Prop :=
  ∃ k s, sendHeader send (buildMessage fileSize true [] ++ [0])
    (buildMessage fileSize true []).length k = .ended s false

/-- What is returned for a `GET` is what has happened. -/
structure ReportsTransfer (send : Write) (sendfile : ℕ → Sendfile) (file : List Byte) : Prop where
  /-- `send_image` comes back. -/
  returns : ∃ fuel image, Senders.sendImage send sendfile file file.length .getCmd fuel = some image
  /-- `CONNECTION_CLOSED` stands for a call of `sendfile` that failed with `EPIPE`. -/
  closed : ∀ fuel image,
    Senders.sendImage send sendfile file file.length .getCmd fuel = some image →
    (image.ended = .returned .connectionClosed ↔ .brokenPipe ∈ image.results)
  /-- `ERROR_SENDING_MESSAGE` stands for one that failed otherwise. -/
  error : ∀ fuel image,
    Senders.sendImage send sendfile file file.length .getCmd fuel = some image →
    (image.ended = .returned .errorSendingMessage ↔ .failed ∈ image.results)
  /-- `OK` stands for all bytes of the file. -/
  ok : ∀ fuel image, Senders.sendImage send sendfile file file.length .getCmd fuel = some image →
    (image.ended = .returned .ok ↔ image.sent = file)

/-- The end of the first transfer. -/
def firstTransfer (outcome : TransferOutcome) (file : List Byte) : TransferEnd :=
  if file = [] then ⟨0, [], []⟩
  else
    match outcome with
    | .complete => ⟨file.length, file, [.sent file.length]⟩
    | .brokenPipe => ⟨RqstStat.connectionClosed.code, [], [.brokenPipe]⟩
    | .failed => ⟨RqstStat.errorSendingMessage.code, [], [.failed]⟩

/-- What `send_image` makes of a transfer whose value is an error or the size of the file. -/
def imageEnd (transfer : TransferEnd) : ImageEnd where
  ended := .returned <|
    if transfer.value = RqstStat.errorSendingMessage.code then .errorSendingMessage
    else if transfer.value = RqstStat.connectionClosed.code then .connectionClosed
    else .ok
  sent := transfer.sent
  results := transfer.results

variable {send : Write} {outcomes : ℕ → ℕ → TransferOutcome} {file : List Byte}

/-- A transfer needs one call, and a second test of the loop if the call sends the file. -/
theorem transferLoop_eq (attempt fuel : ℕ) :
    transferLoop (transfers outcomes attempt) file file.length 0 0 0 [] [] (fuel + 2) =
      some (firstTransfer (outcomes attempt 0) file) := by
  rcases eq_or_ne file [] with rfl | hfile
  · rfl
  · have hpos : 0 < file.length := List.length_pos_of_ne_nil hfile
    unfold firstTransfer
    rw [transferLoop, if_pos hpos, if_neg hfile, transfers]
    cases outcomes attempt 0 with
    | complete => simp [transferLoop]
    | brokenPipe => rfl
    | failed => rfl

/-- With less fuel there is the same transfer or none. -/
theorem eq_of_transferLoop {attempt fuel : ℕ} {transfer : TransferEnd}
    (htransfer : transferLoop (transfers outcomes attempt) file file.length 0 0 0 [] [] fuel =
      some transfer) : transfer = firstTransfer (outcomes attempt 0) file := by
  rcases fuel with _ | _ | fuel
  · cases htransfer
  · rcases eq_or_ne file [] with rfl | hfile
    · cases htransfer
      rfl
    · have hpos : 0 < file.length := List.length_pos_of_ne_nil hfile
      rw [transferLoop, if_pos hpos, transfers] at htransfer
      unfold firstTransfer
      rw [if_neg hfile]
      cases houtcome : outcomes attempt 0 with
      | complete =>
        rw [houtcome] at htransfer
        cases htransfer
      | brokenPipe =>
        rw [houtcome] at htransfer
        cases htransfer
        rfl
      | failed =>
        rw [houtcome] at htransfer
        cases htransfer
        rfl
  · rw [transferLoop_eq] at htransfer
    exact (Option.some_inj.mp htransfer).symm

/-- The value of a transfer is the size of the file or one of the two errors. -/
theorem value_firstTransfer (outcome : TransferOutcome) (file : List Byte) :
    (firstTransfer outcome file).value = RqstStat.errorSendingMessage.code ∨
      (firstTransfer outcome file).value = RqstStat.connectionClosed.code ∨
      (firstTransfer outcome file).value = file.length := by
  unfold firstTransfer
  split_ifs with hfile
  · rw [hfile]
    exact Or.inr (Or.inr rfl)
  · cases outcome with
    | complete => exact Or.inr (Or.inr rfl)
    | brokenPipe => exact Or.inr (Or.inl rfl)
    | failed => exact Or.inl rfl

/-- The retry loop comes back after the first attempt. -/
theorem sendImageLoop_of_transfer {fuel : ℕ} {transfer : TransferEnd}
    (hvalue : transfer.value = RqstStat.errorSendingMessage.code ∨
      transfer.value = RqstStat.connectionClosed.code ∨ transfer.value = file.length)
    (htransfer : transferLoop (transfers outcomes 0) file file.length 0 0 0 [] [] fuel =
      some transfer) :
    sendImageLoop (transfers outcomes) file file.length 0 senderRetry [] [] (fuel + 1) =
      some (imageEnd transfer) := by
  rw [sendImageLoop, if_pos (by decide), htransfer, imageEnd]
  by_cases herror : transfer.value = RqstStat.errorSendingMessage.code
  · simp only [if_pos herror]
  · by_cases hclosed : transfer.value = RqstStat.connectionClosed.code
    · simp only [if_neg herror, if_pos hclosed]
    · have hsize := (hvalue.resolve_left herror).resolve_left hclosed
      simp only [if_neg herror, if_neg hclosed, if_neg (not_not.mpr hsize)]

/-- Once the headers are sent, `send_image` comes back after the first transfer. -/
theorem exists_sendImage (hheader : HeaderSent send file.length) :
    ∃ fuel, Senders.sendImage send (transfers outcomes) file file.length .getCmd fuel =
      some (imageEnd (firstTransfer (outcomes 0 0) file)) := by
  obtain ⟨k, s, hended⟩ := hheader
  refine ⟨k + 3, ?_⟩
  rw [Senders.sendImage, sendHeader_add_of_ended hended 3]
  exact sendImageLoop_of_transfer (value_firstTransfer _ _) (transferLoop_eq 0 (k + 0))

/-- However long it takes, `send_image` comes back in this way. -/
theorem eq_of_sendImage (hheader : HeaderSent send file.length) {fuel : ℕ} {image : ImageEnd}
    (himage : Senders.sendImage send (transfers outcomes) file file.length .getCmd fuel =
      some image) : image = imageEnd (firstTransfer (outcomes 0 0) file) := by
  obtain ⟨k, s, hended⟩ := hheader
  rw [Senders.sendImage] at himage
  cases hprogress : sendHeader send (buildMessage file.length true [] ++ [0])
      (buildMessage file.length true []).length fuel with
  | running t =>
    rw [hprogress] at himage
    cases himage
  | ended t failed =>
    obtain ⟨-, rfl⟩ := eq_of_ended hprogress hended
    rw [hprogress] at himage
    simp only [if_pos] at himage
    rcases fuel with _ | fuel
    · cases himage
    · cases htransfer : transferLoop (transfers outcomes 0) file file.length 0 0 0 [] [] fuel with
      | none =>
        rw [sendImageLoop, if_pos (by decide), htransfer] at himage
        cases himage
      | some transfer =>
        have hfirst := eq_of_transferLoop htransfer
        rw [sendImageLoop_of_transfer (hfirst ▸ value_firstTransfer _ _) htransfer] at himage
        rw [← hfirst]
        exact (Option.some_inj.mp himage).symm

/-- The end of `send_image` says what has happened, except for a complete transfer whose size is one
of the errors. -/
theorem imageEnd_firstTransfer (outcome : TransferOutcome) (file : List Byte) :
    (((imageEnd (firstTransfer outcome file)).ended = .returned .connectionClosed ↔
        .brokenPipe ∈ (imageEnd (firstTransfer outcome file)).results) ∧
      ((imageEnd (firstTransfer outcome file)).ended = .returned .errorSendingMessage ↔
        .failed ∈ (imageEnd (firstTransfer outcome file)).results) ∧
      ((imageEnd (firstTransfer outcome file)).ended = .returned .ok ↔
        (imageEnd (firstTransfer outcome file)).sent = file)) ↔
      ¬ (outcome = .complete ∧ (file.length = 11 ∨ file.length = 12)) := by
  rcases eq_or_ne file [] with rfl | hfile
  · simp [imageEnd, firstTransfer, RqstStat.code]
  · cases outcome with
    | complete =>
      have heleven : ((file.length : ℤ) = 11) ↔ file.length = 11 := by omega
      have htwelve : ((file.length : ℤ) = 12) ↔ file.length = 12 := by omega
      simp only [imageEnd, firstTransfer, if_neg hfile, RqstStat.code, heleven, htwelve]
      split_ifs with herror hclosed
      · simp [herror]
      · simp [hclosed]
      · simp [herror, hclosed]
    | brokenPipe => simp [imageEnd, firstTransfer, hfile, RqstStat.code, hfile.symm]
    | failed => simp [imageEnd, firstTransfer, hfile, RqstStat.code, hfile.symm]

/-- Once the headers are sent, `send_image` reports what has happened if and only if it is not that
a file of 11 or of 12 bytes was sent completely. -/
theorem reportsTransfer_iff (hheader : HeaderSent send file.length) :
    ReportsTransfer send (transfers outcomes) file ↔
      ¬ (outcomes 0 0 = .complete ∧ (file.length = 11 ∨ file.length = 12)) := by
  obtain ⟨fuel, hreturns⟩ := @exists_sendImage send outcomes file hheader
  rw [← imageEnd_firstTransfer]
  constructor
  · intro hreports
    exact ⟨hreports.closed fuel _ hreturns, hreports.error fuel _ hreturns,
      hreports.ok fuel _ hreturns⟩
  · rintro ⟨hclosed, herror, hok⟩
    refine ⟨⟨fuel, _, hreturns⟩, fun other image himage ↦ ?_, fun other image himage ↦ ?_,
      fun other image himage ↦ ?_⟩
    · rw [eq_of_sendImage hheader himage]
      exact hclosed
    · rw [eq_of_sendImage hheader himage]
      exact herror
    · rw [eq_of_sendImage hheader himage]
      exact hok

/-- Transfers that are all complete. -/
def allComplete : ℕ → ℕ → TransferOutcome :=
  fun _ _ ↦ .complete

theorem headerSent_sendAll (fileSize : ℕ) : HeaderSent sendAll fileSize :=
  exists_ended_sendAll fileSize true []

/-- A file of ten bytes that is sent completely. -/
theorem reportsTransfer_ten :
    HeaderSent sendAll (bytes "0123456789").length ∧
      (ReportsTransfer sendAll (transfers allComplete) (bytes "0123456789") ↔
        ¬ (allComplete 0 0 = .complete ∧
          ((bytes "0123456789").length = 11 ∨ (bytes "0123456789").length = 12))) ∧
      ReportsTransfer sendAll (transfers allComplete) (bytes "0123456789") := by
  have hheader := headerSent_sendAll (bytes "0123456789").length
  have hiff := @reportsTransfer_iff sendAll allComplete (bytes "0123456789") hheader
  exact ⟨hheader, hiff, hiff.mpr (by decide)⟩

/-- A file of 11 bytes is sent completely and reported as an error, and one of 12 bytes as a closed
connection. -/
theorem not_reportsTransfer :
    (¬ ∀ (send : Write) (outcomes : ℕ → ℕ → TransferOutcome) (file : List Byte),
      HeaderSent send file.length → ReportsTransfer send (transfers outcomes) file) ∧
      (∃ fuel, Senders.sendImage sendAll (transfers allComplete) (bytes "hello world") 11 .getCmd
        fuel = some ⟨.returned .errorSendingMessage, bytes "hello world", [.sent 11]⟩) ∧
      ∃ fuel, Senders.sendImage sendAll (transfers allComplete) (bytes "hello, world") 12 .getCmd
        fuel = some ⟨.returned .connectionClosed, bytes "hello, world", [.sent 12]⟩ := by
  have heleven : Senders.sendImage sendAll (transfers allComplete) (bytes "hello world") 11 .getCmd
      4 = some ⟨.returned .errorSendingMessage, bytes "hello world", [.sent 11]⟩ := by
    decide +kernel
  refine ⟨fun hreports ↦ ?_, ⟨4, heleven⟩, ⟨4, by decide +kernel⟩⟩
  have hreport := hreports sendAll allComplete (bytes "hello world") (headerSent_sendAll _)
  have herror := (hreport.error 4 _ heleven).mp rfl
  exact absurd herror (by decide)

end ImageApp.Responses
