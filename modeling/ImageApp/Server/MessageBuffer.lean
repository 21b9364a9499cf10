import ImageApp.Server.Messages

/-!
# The header in its buffer

`build_message` of `Strings.c` copy by copy. Each call of `memcpy` and the addition to `len` behind
it have counts of their own, which the source writes out separately, and a copy that would leave its
source or `msg` has no result. `buildMessageInto_eq` says that the counts agree, so that `msg` holds
the text of `buildMessage` when there is room for it.
-/

set_option autoImplicit false
set_option relaxedAutoImplicit false

namespace ImageApp.Server

open Foundations.CStrings Foundations.DecimalRows Foundations.HeaderBlocks

/-- A copy to the end of the message: the string, the bytes that are copied from it, and the number
that is added to `len`. -/
structure Copy where
  text : List Byte
  copied : ℕ
  counted : ℕ

/-- A copy that counts its string each time. -/
def wholeCopy (text : List Byte) : Copy where
  text := text
  copied := text.length
  counted := text.length

/-- The copies for an image. -/
def imageCopies (charSize : List Byte) : List Copy :=
  [wholeCopy (bytes "HTTP/1.1 200 OK"),
    wholeCopy (bytes "\r\n"),
    wholeCopy (bytes "Server: 127.0.0.1"),
    wholeCopy (bytes "\r\n"),
    { text := bytes "Content-Type: image/"
      copied := (bytes "content-type: image/").length
      counted := (bytes "Content-Type: image/").length },
    wholeCopy (bytes "jpeg"),
    wholeCopy (bytes "\r\n"),
    wholeCopy (bytes "Content-Transfer-Encoding: binary"),
    wholeCopy (bytes "\r\n"),
    wholeCopy (bytes "Content-Length: "),
    wholeCopy charSize,
    wholeCopy (bytes "\r\n"),
    wholeCopy (bytes "Keep-Alive: timeout=5, max=10"),
    wholeCopy (bytes "\r\n\r\n")]

/-- The copies for an error page with a status line. -/
def pageCopies (statusLine charSize : List Byte) : List Copy :=
  [wholeCopy statusLine,
    wholeCopy (bytes "\r\n"),
    wholeCopy (bytes "Server: 127.0.0.1"),
    wholeCopy (bytes "\r\n"),
    wholeCopy (bytes "Content-Type: text/html"),
    wholeCopy (bytes "\r\n"),
    wholeCopy (bytes "Content-Length: "),
    wholeCopy charSize,
    wholeCopy (bytes "\r\n"),
    wholeCopy (bytes "Connection: Closed"),
    wholeCopy (bytes "\r\n\r\n")]

/-- The copies that `build_message` makes. -/
def messageCopies (fileSize : ℕ) (image : Bool) (msgError : List Byte) : List Copy :=
  let charSize := untilNul (convertLongToString fileSize)
  if image then imageCopies charSize
  else if fileSize = (untilNul msgError).length + 1 then
    pageCopies (bytes "HTTP/1.1 400 Bad Request") charSize
  else if fileSize = (untilNul msgError).length + 1 then
    pageCopies (bytes "HTTP/1.1 503 Service Unavailable") charSize
  else []

/-- The buffer, and the variable `len`. -/
structure MessageBuffer where
  msg : List Byte
  len : ℕ

/-- A copy, which stays inside its string with the NUL and inside the buffer. -/
def writeCopy (buffer : MessageBuffer) (copy : Copy) : Option MessageBuffer :=
  if copy.copied ≤ copy.text.length + 1 ∧ buffer.len + copy.copied ≤ buffer.msg.length then
    some
      { msg := overwrite buffer.msg buffer.len ((copy.text ++ [0]).take copy.copied)
        len := buffer.len + copy.counted }
  else none

/-- The NUL at the end, and what is returned. -/
def closeMessage (buffer : MessageBuffer) : Option (List Byte × ℕ) :=
  if buffer.len < buffer.msg.length then some (buffer.msg.set buffer.len 0, buffer.len) else none

/-- `build_message`: the content of `msg` afterwards, and the length that it returns. -/
def buildMessageInto (fileSize : ℕ) (image : Bool) (msgError msg : List Byte) :
    Option (List Byte × ℕ) :=
  ((messageCopies fileSize image msgError).foldlM writeCopy { msg := msg, len := 0 }).bind
    closeMessage

/-! ### The copies one after another -/

/-- A string behind what was written. -/
theorem writeCopy_wholeCopy {done room text : List Byte} (hroom : text.length ≤ room.length) :
    writeCopy ⟨done ++ room, done.length⟩ (wholeCopy text) =
      some ⟨done ++ text ++ room.drop text.length, (done ++ text).length⟩ := by
  have hfits : text.length ≤ text.length + 1 ∧
      done.length + text.length ≤ (done ++ room).length := by
    rw [List.length_append]
    omega
  rw [writeCopy, wholeCopy, if_pos hfits, List.take_left, overwrite_append, ← List.length_append]

/-- Strings behind what was written. -/
theorem foldlM_wholeCopy {texts : List (List Byte)} {done room : List Byte}
    (hroom : texts.flatten.length ≤ room.length) :
    (texts.map wholeCopy).foldlM writeCopy ⟨done ++ room, done.length⟩ =
      some ⟨done ++ texts.flatten ++ room.drop texts.flatten.length,
        (done ++ texts.flatten).length⟩ := by
  induction texts generalizing done room with
  | nil => simp
  | cons text texts ih =>
    rw [List.flatten_cons, List.length_append] at hroom
    have hrest : texts.flatten.length ≤ (room.drop text.length).length := by
      rw [List.length_drop]
      omega
    have hfirst := @writeCopy_wholeCopy done room text (by omega)
    rw [List.map_cons, List.foldlM_cons, hfirst]
    show (texts.map wholeCopy).foldlM writeCopy _ = _
    rw [ih hrest, List.drop_drop, List.flatten_cons, ← List.append_assoc, ← List.length_append]

/-- The two counts of the copy of the content type agree. -/
theorem typeCopy_eq :
    Copy.mk (bytes "Content-Type: image/") (bytes "content-type: image/").length
      (bytes "Content-Type: image/").length = wholeCopy (bytes "Content-Type: image/") := by
  have hcounts : (bytes "content-type: image/").length = (bytes "Content-Type: image/").length := by
    decide
  rw [wholeCopy, hcounts]

/-- Each branch copies the strings of the message. -/
theorem exists_texts_of_messageCopies (fileSize : ℕ) (image : Bool) (msgError : List Byte) :
    ∃ texts : List (List Byte), messageCopies fileSize image msgError = texts.map wholeCopy ∧
      texts.flatten = buildMessage fileSize image msgError := by
  have himage : ∀ charSize, imageCopies charSize = List.map wholeCopy
      [bytes "HTTP/1.1 200 OK", bytes "\r\n", bytes "Server: 127.0.0.1", bytes "\r\n",
        bytes "Content-Type: image/", bytes "jpeg", bytes "\r\n",
        bytes "Content-Transfer-Encoding: binary", bytes "\r\n", bytes "Content-Length: ", charSize,
        bytes "\r\n", bytes "Keep-Alive: timeout=5, max=10", bytes "\r\n\r\n"] := by
    intro charSize
    rw [imageCopies, typeCopy_eq]
    rfl
  have hpage : ∀ statusLine charSize, pageCopies statusLine charSize = List.map wholeCopy
      [statusLine, bytes "\r\n", bytes "Server: 127.0.0.1", bytes "\r\n",
        bytes "Content-Type: text/html", bytes "\r\n", bytes "Content-Length: ", charSize,
        bytes "\r\n", bytes "Connection: Closed", bytes "\r\n\r\n"] :=
    fun _ _ ↦ rfl
  rw [messageCopies, buildMessage]
  split_ifs with hrecord hbad
  · exact ⟨_, himage _, by simp⟩
  · exact ⟨_, hpage _ _, by simp⟩
  · exact ⟨[], rfl, rfl⟩

/-- A message that there is room for is written with its NUL, and its length is returned. -/
theorem buildMessageInto_eq {fileSize : ℕ} {image : Bool} {msgError msg : List Byte}
    (hroom : (buildMessage fileSize image msgError).length < msg.length) :
    buildMessageInto fileSize image msgError msg =
      some (buildMessage fileSize image msgError ++
          0 :: msg.drop ((buildMessage fileSize image msgError).length + 1),
        (buildMessage fileSize image msgError).length) := by
  obtain ⟨texts, hcopies, htexts⟩ := exists_texts_of_messageCopies fileSize image msgError
  rw [← htexts] at hroom ⊢
  have hwritten := @foldlM_wholeCopy texts [] msg hroom.le
  rw [List.nil_append, List.length_nil, List.nil_append] at hwritten
  have hleft : msg.drop texts.flatten.length =
      msg[texts.flatten.length] :: msg.drop (texts.flatten.length + 1) :=
    List.drop_eq_getElem_cons hroom
  have hinside :
      texts.flatten.length < (texts.flatten ++ msg.drop texts.flatten.length).length := by
    rw [List.length_append, List.length_drop]
    omega
  rw [buildMessageInto, hcopies, hwritten, Option.bind_some, closeMessage, if_pos hinside, hleft,
    List.set_append_right _ _ le_rfl, Nat.sub_self, List.set_cons_zero]

end ImageApp.Server
