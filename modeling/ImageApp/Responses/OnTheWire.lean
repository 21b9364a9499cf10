import ImageApp.Responses.FileTransfer
import ImageApp.Responses.HeaderSends
import ImageApp.Responses.HeaderText
import ImageApp.Server.Wire

/-!
# An answer on the wire

What a client receives when the calls for an image accept only parts of what they are asked for. The
loop of the header asks for the whole text each time, so its last call may go on behind the end of
the text: the client receives the NUL and bytes that were on the stack in front of the file. The
transfer of the file is the other way round: after a partial one it never ends.

`imageOnWire_spec` puts the two together, for all calls that do not fail. `headerOnWire_spec` is the
loop of the header with the bytes that it sends.
-/

set_option autoImplicit false
set_option relaxedAutoImplicit false

namespace ImageApp.Responses

open Foundations.CStrings Foundations.DecimalRows Foundations.Extents Foundations.HeaderBlocks
  Foundations.LoopRuns Server Server.Senders

/-! ### The header -/

/-- The loop of a header that has `len` bytes: what was sent are the first bytes of `msg`, and it
ends without an error when these are enough. -/
def FirstSent (len : ℕ) : HeaderProgress → Prop
  | .running s => s.written = extent 0 s.sent ∧ s.sent < 2 * len
  | .ended s failed =>
    failed = false ∧ s.written = extent 0 s.sent ∧ len ≤ s.sent ∧ s.sent < 2 * len

/-- An iteration sends the bytes behind those that were sent. -/
theorem firstSent_iteration {send : Write} (hsends : PartialSends send) {msg : List Byte}
    {s : HeaderState} (hs : FirstSent (untilNul msg).length (.running s)) :
    FirstSent (untilNul msg).length (sendHeaderIteration send msg (untilNul msg).length s) := by
  obtain ⟨hwritten, hsent⟩ := hs
  rw [sendHeaderIteration]
  split_ifs with hless
  · obtain ⟨v, haccepted, hmost, -⟩ := hsends s.calls s.sent (untilNul msg).length
    have hpositions := extent_append 0 s.sent v
    rw [Int.zero_add] at hpositions
    rw [haccepted]
    refine ⟨?_, ?_⟩
    · simp only [hwritten, hpositions]
    · simp only
      omega
  · exact ⟨rfl, hwritten, by omega, hsent⟩

/-- An iteration that goes on leaves less of the text. -/
theorem left_lt_of_iteration {send : Write} (hsends : PartialSends send) {msg : List Byte}
    {s t : HeaderState} (htext : 0 < (untilNul msg).length)
    (hrunning : sendHeaderIteration send msg (untilNul msg).length s = .running t) :
    (untilNul msg).length - t.sent < (untilNul msg).length - s.sent := by
  rw [sendHeaderIteration] at hrunning
  split_ifs at hrunning with hless
  obtain ⟨v, haccepted, -, hleast⟩ := hsends s.calls s.sent (untilNul msg).length
  have hmore := hleast htext
  rw [haccepted] at hrunning
  cases hrunning
  simp only
  omega

/-- The loop ends, and has sent the text and less than its length behind it. -/
theorem exists_ended_sendHeader {send : Write} (hsends : PartialSends send) {msg : List Byte}
    (htext : 0 < (untilNul msg).length) :
    ∃ k s, sendHeader send msg (untilNul msg).length k = .ended s false ∧
      s.written = extent 0 s.sent ∧ (untilNul msg).length ≤ s.sent ∧
      s.sent < 2 * (untilNul msg).length := by
  have hstart : FirstSent (untilNul msg).length (.running ⟨0, 0, []⟩) := ⟨rfl, by simpa using htext⟩
  have hstep : ∀ s t, FirstSent (untilNul msg).length (.running s) →
      sendHeaderIteration send msg (untilNul msg).length s = .running t →
      FirstSent (untilNul msg).length (.running t) ∧
        (untilNul msg).length - t.sent < (untilNul msg).length - s.sent := by
    intro s t hs hrunning
    have hnext := firstSent_iteration hsends hs
    rw [hrunning] at hnext
    exact ⟨hnext, left_lt_of_iteration hsends htext hrunning⟩
  obtain ⟨k, s, failed, hended⟩ :=
    exists_ended_of_measure (fun s : HeaderState ↦ (untilNul msg).length - s.sent) hstep hstart
  have hlast := after_induction hstart (fun t ht ↦ firstSent_iteration hsends ht) k
  rw [hended] at hlast
  obtain ⟨rfl, hspec⟩ := hlast
  exact ⟨k, s, hended, hspec⟩

/-- The loop reads no more of `msg` than its string. -/
theorem sendHeader_congr {msg other : List Byte} (hsame : untilNul msg = untilNul other)
    (send : Write) (lenHeader k : ℕ) :
    sendHeader send msg lenHeader k = sendHeader send other lenHeader k := by
  have hbody : sendHeaderIteration send msg lenHeader =
      sendHeaderIteration send other lenHeader := by
    funext s
    rw [sendHeaderIteration, sendHeaderIteration, hsame]
  rw [sendHeader, sendHeader, hbody]

/-- The bytes of a header that there is room for. -/
theorem headerOnWire_eq {calls : Calls} {fileSize : ℕ} {image : Bool} {msgError text : List Byte}
    (htext : buildMessage fileSize image msgError = text) (hroom : text.length < 512) (fuel : ℕ) :
    headerOnWire calls fileSize image msgError fuel =
      match sendHeader calls.send (text ++ [0]) text.length fuel with
      | .running _ => none
      | .ended s failed =>
        (readAt (text ++ 0 :: calls.msg.drop (text.length + 1)) s.written).map
          fun header ↦ (header, failed) := by
  have hnul : (0 : Byte) ∉ text := htext ▸ zero_notMem_buildMessage fileSize image msgError
  have hsame : untilNul (text ++ 0 :: calls.msg.drop (text.length + 1)) =
      untilNul (text ++ [0]) := by
    rw [untilNul_append_zero hnul, untilNul_append_zero hnul]
  have hbuilt := @buildMessageInto_eq fileSize image msgError calls.msg
    (by rw [htext, calls.msg_length]; exact hroom)
  rw [htext] at hbuilt
  rw [headerOnWire, hbuilt, Option.bind_some]
  dsimp only
  rewrite [sendHeader_congr hsame]
  rfl

/-- However `send` splits a header that takes up no more than half of `msg`, the client receives its
text, and then less than as many bytes of what is behind it in `msg`. -/
theorem headerOnWire_spec {calls : Calls} (hsends : PartialSends calls.send) {fileSize : ℕ}
    {image : Bool} {msgError text : List Byte}
    (htext : buildMessage fileSize image msgError = text) (hsome : 0 < text.length)
    (hroom : 2 * text.length ≤ 512) :
    ∃ stray k s, stray <+: 0 :: calls.msg.drop (text.length + 1) ∧ stray.length < text.length ∧
      sendHeader calls.send (text ++ [0]) text.length k = .ended s false ∧
      s.sent = text.length + stray.length ∧
      ∀ fuel, headerOnWire calls fileSize image msgError fuel =
        match sendHeader calls.send (text ++ [0]) text.length fuel with
        | .running _ => none
        | .ended _ _ => some (text ++ stray, false) := by
  have hnul : (0 : Byte) ∉ text := htext ▸ zero_notMem_buildMessage fileSize image msgError
  have hstring : untilNul (text ++ [0]) = text := untilNul_append_zero hnul []
  obtain ⟨k, s, hended, hwritten, hleast, hmost⟩ :=
    @exists_ended_sendHeader calls.send hsends (text ++ [0]) (by rw [hstring]; exact hsome)
  rw [hstring] at hended hleast hmost
  set behind := 0 :: calls.msg.drop (text.length + 1) with hbehind
  have hsize : behind.length = 512 - text.length := by
    rw [hbehind, List.length_cons, List.length_drop, calls.msg_length]
    omega
  have hread : readAt (text ++ behind) s.written =
      some (text ++ behind.take (s.sent - text.length)) := by
    rw [hwritten, readAt_extent, List.take_append, List.take_of_length_le hleast]
    rw [List.length_append, hsize]
    omega
  have hstray : (behind.take (s.sent - text.length)).length = s.sent - text.length := by
    rw [List.length_take, hsize]
    omega
  refine ⟨behind.take (s.sent - text.length), k, s, List.take_prefix _ _, by omega, hended,
    by omega, fun fuel ↦ ?_⟩
  rw [headerOnWire_eq htext (by omega)]
  cases hprogress : sendHeader calls.send (text ++ [0]) text.length fuel with
  | running t => rfl
  | ended t failed =>
    obtain ⟨rfl, rfl⟩ := eq_of_ended hprogress hended
    dsimp only
    rw [hread]
    rfl

/-! ### The file -/

/-- The first call of `sendfile`, if there is one, sends the file. -/
def SentAtOnce (sendfile : Sendfile) (file : List Byte) : Prop :=
  file = [] ∨ sendfile 0 0 file.length = .sent file.length

/-- A transfer that ends has sent the file at once. -/
theorem eq_of_transferLoop_partial {sendfile : Sendfile} {file : List Byte}
    (hpieces : PartialTransfers file.length sendfile) {fuel : ℕ} {transfer : TransferEnd}
    (htransfer : transferLoop sendfile file file.length 0 0 0 [] [] fuel = some transfer) :
    SentAtOnce sendfile file ∧ transfer.value = file.length ∧ transfer.sent = file := by
  have hloop := transferLoop_map sendfile file file.length fuel 0 0 0 [] []
  rw [htransfer, Option.map_some] at hloop
  rcases fuel with _ | fuel
  · cases htransfer
  rcases eq_or_ne file [] with rfl | hfile
  · rw [sendFileLoop, if_neg (by simp), Option.some.injEq, Prod.mk.injEq] at hloop
    exact ⟨Or.inl rfl, hloop.1, hloop.2⟩
  have hpos : 0 < file.length := List.length_pos_of_ne_nil hfile
  obtain ⟨v, hsent, hone, hmost⟩ := hpieces.inside 0 0 file.length hpos hpos
  rw [sendFileLoop, if_pos hpos, Nat.sub_zero, hsent] at hloop
  dsimp only at hloop
  rcases Nat.lt_or_ge v file.length with hless | hall
  · -- The offset is twice what was sent.
    have hdouble : 0 + v + v = 2 * (0 + v) := by omega
    rw [hdouble, sendFileLoop_eq_none hpieces (by omega) (by omega)] at hloop
    cases hloop
  · obtain rfl : v = file.length := by omega
    rcases fuel with _ | fuel
    · cases hloop
    · rw [sendFileLoop, if_neg (by omega), Option.some.injEq, Prod.mk.injEq] at hloop
      refine ⟨Or.inr hsent, ?_, ?_⟩
      · simpa using hloop.1
      · simpa using hloop.2

/-- A transfer that sends the file at once ends. -/
theorem exists_transferLoop {sendfile : Sendfile} {file : List Byte}
    (honce : SentAtOnce sendfile file) (fuel : ℕ) :
    ∃ results, transferLoop sendfile file file.length 0 0 0 [] [] (fuel + 2) =
      some ⟨file.length, file, results⟩ := by
  rcases eq_or_ne file [] with rfl | hfile
  · exact ⟨[], rfl⟩
  · have hpos : 0 < file.length := List.length_pos_of_ne_nil hfile
    rw [transferLoop, if_pos hpos, Nat.sub_zero, honce.resolve_left hfile]
    dsimp only
    rw [transferLoop, if_neg (by omega)]
    exact ⟨[.sent file.length], by simp⟩

/-- The file is not sent again: what the first attempt returns is its size. -/
theorem sendImageLoop_of_value {sendfile : ℕ → Sendfile} {file : List Byte} {fuel : ℕ}
    {transfer : TransferEnd}
    (htransfer : transferLoop (sendfile 0) file file.length 0 0 0 [] [] fuel = some transfer)
    (hvalue : transfer.value = file.length) :
    ∃ value, sendImageLoop sendfile file file.length 0 senderRetry [] [] (fuel + 1) =
        some ⟨.returned value, transfer.sent, transfer.results⟩ ∧
      (value = .connectionClosed ↔ file.length = 12) := by
  have hcodes : RqstStat.errorSendingMessage.code = 11 ∧ RqstStat.connectionClosed.code = 12 := by
    decide
  rw [sendImageLoop, if_pos (by decide), htransfer, hcodes.1, hcodes.2]
  dsimp only
  rw [hvalue]
  split_ifs with heleven htwelve hother
  · exact ⟨_, rfl, iff_of_false (by decide) (by omega)⟩
  · exact ⟨_, rfl, iff_of_true rfl (by omega)⟩
  · exact absurd rfl hother
  · exact ⟨_, rfl, iff_of_false (by decide) (by omega)⟩

/-- When the retry loop comes back, the first attempt has sent the file. -/
theorem sent_of_sendImageLoop {sendfile : ℕ → Sendfile} {file : List Byte}
    (hpieces : PartialTransfers file.length (sendfile 0)) {fuel : ℕ} {image : ImageEnd}
    (himage : sendImageLoop sendfile file file.length 0 senderRetry [] [] fuel = some image) :
    SentAtOnce (sendfile 0) file ∧ image.sent = file ∧
      ∃ value, image.ended = .returned value ∧ (value = .connectionClosed ↔ file.length = 12) := by
  rcases fuel with _ | fuel
  · cases himage
  cases htransfer : transferLoop (sendfile 0) file file.length 0 0 0 [] [] fuel with
  | none =>
    rw [sendImageLoop, if_pos (by decide), htransfer] at himage
    cases himage
  | some transfer =>
    obtain ⟨honce, hvalue, hsent⟩ := eq_of_transferLoop_partial hpieces htransfer
    obtain ⟨value, hended, hclosed⟩ := sendImageLoop_of_value htransfer hvalue
    rw [hended, Option.some.injEq] at himage
    rw [← himage]
    exact ⟨honce, hsent, value, rfl, hclosed⟩

/-- The header of an image takes up no more than half of `msg`. -/
theorem length_buildMessage_image {size : ℕ} (hsize : size < 2 ^ 63) (msgError : List Byte) :
    0 < (buildMessage size true msgError).length ∧
      2 * (buildMessage size true msgError).length ≤ 512 := by
  have hdigits : digitCount size ≤ 19 :=
    (Nat.digits_length_le_iff (by decide) size).mpr (hsize.trans (by norm_num))
  have hframe : imageLines size = (imageLines 0).take 4 ++
      lengthLine size :: [bytes "Keep-Alive: timeout=5, max=10"] := rfl
  have hrest : (headerBlock ((imageLines 0).take 4 ++
      lengthLine 0 :: [bytes "Keep-Alive: timeout=5, max=10"])).length = 148 := by decide +kernel
  rw [buildMessage_image, hframe, length_headerBlock_frame, hrest]
  omega

/-- Once the header is sent, the bytes of an image are those of the header and of the file. -/
theorem imageOnWire_of_header {calls : Calls} {content header : List Byte} {fuel : ℕ}
    {s : HeaderState}
    (hended : sendHeader calls.send (buildMessage content.length true [] ++ [0])
      (buildMessage content.length true []).length fuel = .ended s false)
    (hheader : headerOnWire calls content.length true [] fuel = some (header, false))
    (cmd : RqstStat) :
    imageOnWire calls content cmd fuel =
      if cmd = .getCmd then
        (sendImageLoop calls.sendfile content content.length 0 senderRetry [] [] fuel).map
          fun image ↦ header ++ image.sent
      else some header := by
  rw [imageOnWire, hheader, Option.bind_some, Senders.sendImage, hended]
  dsimp only
  split_ifs
  · rfl
  · simp

/-- Whatever parts the calls accept, the client of `send_image` receives the header, less than as
many bytes of what is behind it in `msg`, and the file if it is a GET. `send_image` comes back
unless it is a GET and the file is not sent at once. -/
theorem imageOnWire_spec {calls : Calls} (hsends : PartialSends calls.send) {content : List Byte}
    (htransfers : PartialTransfers content.length (calls.sendfile 0))
    (hsize : content.length < 2 ^ 63) (cmd : RqstStat) :
    ∃ stray,
      stray <+: 0 :: calls.msg.drop ((buildMessage content.length true []).length + 1) ∧
      stray.length < (buildMessage content.length true []).length ∧
      (∀ fuel wire, imageOnWire calls content cmd fuel = some wire →
        wire = buildMessage content.length true [] ++ stray ++
          if cmd = .getCmd then content else []) ∧
      ((∃ fuel wire, imageOnWire calls content cmd fuel = some wire) ↔
        (cmd = .getCmd → SentAtOnce (calls.sendfile 0) content)) := by
  obtain ⟨hsome, hroom⟩ := length_buildMessage_image hsize []
  obtain ⟨stray, k, s, hbehind, hless, hended, -, hheader⟩ :=
    headerOnWire_spec hsends rfl hsome hroom
  have hwire : ∀ fuel wire, imageOnWire calls content cmd fuel = some wire →
      wire = buildMessage content.length true [] ++ stray ++
          (if cmd = .getCmd then content else []) ∧
        (cmd = .getCmd → SentAtOnce (calls.sendfile 0) content) := by
    intro fuel wire hwire
    have hbytes := hheader fuel
    cases hprogress : sendHeader calls.send (buildMessage content.length true [] ++ [0])
        (buildMessage content.length true []).length fuel with
    | running t =>
      rw [hprogress] at hbytes
      rw [imageOnWire, hbytes] at hwire
      cases hwire
    | ended t failed =>
      obtain ⟨-, rfl⟩ := eq_of_ended hprogress hended
      rw [hprogress] at hbytes
      rw [imageOnWire_of_header hprogress hbytes] at hwire
      split_ifs at hwire with hget
      · obtain ⟨image, himage, rfl⟩ := Option.map_eq_some_iff.mp hwire
        obtain ⟨honce, hsent, -⟩ := sent_of_sendImageLoop htransfers himage
        rw [if_pos hget, hsent]
        exact ⟨rfl, fun _ ↦ honce⟩
      · rw [if_neg hget, List.append_nil]
        exact ⟨(Option.some_inj.mp hwire).symm, fun hcmd ↦ absurd hcmd hget⟩
  refine ⟨stray, hbehind, hless, fun fuel wire hsome ↦ (hwire fuel wire hsome).1, ?_, ?_⟩
  · rintro ⟨fuel, wire, hsome⟩
    exact (hwire fuel wire hsome).2
  · intro honce
    have hlater := sendHeader_add_of_ended hended 3
    have hbytes := hheader (k + 3)
    rw [hlater] at hbytes
    refine ⟨k + 3, ?_⟩
    rw [imageOnWire_of_header hlater hbytes]
    split_ifs with hget
    · obtain ⟨results, htransfer⟩ := exists_transferLoop (honce hget) k
      obtain ⟨value, himage, -⟩ := sendImageLoop_of_value htransfer rfl
      exact ⟨_, by rw [himage]; rfl⟩
    · exact ⟨_, rfl⟩

/-- Calls of `sendfile` that send all that there is of a file of the given size. -/
def allOfFile (size : ℕ) : Sendfile :=
  fun _ offset count ↦ .sent (min count (size - offset))

theorem partialTransfers_allOfFile (size : ℕ) : PartialTransfers size (allOfFile size) := by
  refine ⟨fun call offset count hoffset hcount ↦ ⟨_, rfl, by omega, le_rfl⟩,
    fun call offset count hoffset ↦ ?_⟩
  rw [allOfFile, Nat.sub_eq_zero_of_le hoffset, Nat.min_zero]

/-- What is on the stack. -/
def stackBytes : List Byte :=
  List.replicate 512 42

theorem length_stackBytes : stackBytes.length = 512 :=
  List.length_replicate

/-- Calls that accept one byte of the header first, and a file of two bytes at once. -/
def splitCalls : Calls where
  send := shortFirst 1
  write := sendAll
  sendfile := fun _ ↦ allOfFile 2
  missing := 0
  msg := stackBytes
  msg_length := length_stackBytes

/-- The client of such a server receives a NUL between the header and the file. -/
theorem imageOnWire_split :
    (∃ stray, stray.length < (buildMessage 2 true []).length ∧
      ∀ fuel wire, imageOnWire splitCalls (bytes "ab") .getCmd fuel = some wire →
        wire = buildMessage 2 true [] ++ stray ++ bytes "ab") ∧
      imageOnWire splitCalls (bytes "ab") .getCmd 4 =
        some (buildMessage 2 true [] ++ [0] ++ bytes "ab") := by
  have hlength : (bytes "ab").length = 2 := by decide
  have hsends : PartialSends splitCalls.send := partialSends_shortFirst le_rfl
  have htransfers : PartialTransfers (bytes "ab").length (splitCalls.sendfile 0) := by
    rw [hlength]
    exact partialTransfers_allOfFile 2
  obtain ⟨stray, -, hless, hwire, -⟩ := imageOnWire_spec hsends htransfers (by decide) .getCmd
  rw [hlength] at hless hwire
  exact ⟨⟨stray, hless, hwire⟩, by decide +kernel⟩

end ImageApp.Responses
