import ImageApp.Foundations.HeaderBlocks
import ImageApp.Server.Strings
import ImageApp.Server.ThreadPool

/-!
# The answers of the server

`build_message` of `Strings.c`, and what the three senders of `Request.c` put on the connection when
every call of `send`, `write` and `sendfile` sends all that it is asked for. `transmitted` collects
the bytes for the effects of a worker, and is `none` when `send_image` is called without an image,
which it reads. Sizes are natural numbers, and the parameter `mime_type`, which `build_message` does
not read, is left out.

`buildMessage_image` and `buildMessage_page` are the header blocks that are sent.
-/

set_option autoImplicit false
set_option relaxedAutoImplicit false

namespace ImageApp.Server

open Foundations.CStrings Foundations.DecimalRows Foundations.HeaderBlocks

/-- `convert_long_to_string`. It is `convert_int_to_string` on a `long`. -/
def convertLongToString (value : ℤ) : List Byte :=
  let count := countCipher value
  (writeCiphers count value 1 (zeros (count + 1))).set count 0

/-- `build_message`: the text that is written to `msg`, whose length is returned. `image` says
whether there is an image. -/
def buildMessage (fileSize : ℕ) (image : Bool) (msgError : List Byte) : List Byte :=
  if image then
    bytes "HTTP/1.1 200 OK" ++ bytes "\r\n" ++
    bytes "Server: 127.0.0.1" ++ bytes "\r\n" ++
    bytes "Content-Type: image/" ++ bytes "jpeg" ++ bytes "\r\n" ++
    bytes "Content-Transfer-Encoding: binary" ++ bytes "\r\n" ++
    bytes "Content-Length: " ++ untilNul (convertLongToString fileSize) ++ bytes "\r\n" ++
    bytes "Keep-Alive: timeout=5, max=10" ++ bytes "\r\n\r\n"
  else if fileSize = (untilNul msgError).length + 1 then
    bytes "HTTP/1.1 400 Bad Request" ++ bytes "\r\n" ++
    bytes "Server: 127.0.0.1" ++ bytes "\r\n" ++
    bytes "Content-Type: text/html" ++ bytes "\r\n" ++
    bytes "Content-Length: " ++ untilNul (convertLongToString fileSize) ++ bytes "\r\n" ++
    bytes "Connection: Closed" ++ bytes "\r\n\r\n"
  else if fileSize = (untilNul msgError).length + 1 then
    bytes "HTTP/1.1 503 Service Unavailable" ++ bytes "\r\n" ++
    bytes "Server: 127.0.0.1" ++ bytes "\r\n" ++
    bytes "Content-Type: text/html" ++ bytes "\r\n" ++
    bytes "Content-Length: " ++ untilNul (convertLongToString fileSize) ++ bytes "\r\n" ++
    bytes "Connection: Closed" ++ bytes "\r\n\r\n"
  else []

/-- The error pages. -/
structure Pages where
  badRequest : List Byte
  serviceUnavailable : List Byte

/-- The pages of `HtmlResponse.h`. -/
def htmlResponse : Pages where
  badRequest := bytes <|
    "<!DOCTYPE HTML PUBLIC>\n<html>\n\n<head>\n   <title>400 Bad Request</title>\n</head>\n\n" ++
    "<body>\n   <h1>Bad Request</h1>\n" ++
    "   <p>Your browser sent a request that this server could not understand.<p>\n" ++
    "   <p>The request line contained invalid characters following the protocol string.<p>\n" ++
    "</body>\n\n</html>"
  serviceUnavailable := bytes <|
    "<!DOCTYPE HTML PUBLIC>\n<html>\n\n<head>\n   <title>503 Service Unavailable</title>\n" ++
    "</head>\n\n<body>\n   <h1>Service unavailablet</h1>\n" ++
    "   <p>Your browser sent a request that this server could not satisfy.<p>\n" ++
    "   <p>Please retry in a few seconds<p>\n</body>\n\n</html>"

/-- The text of the page for a bad request, which is evaluated piece by piece. -/
theorem badRequest_text :
    htmlResponse.badRequest.length = 290 ∧ (0 : Byte) ∉ htmlResponse.badRequest := by
  simp only [htmlResponse, bytes_append, List.length_append, List.mem_append, not_or]
  decide +kernel

/-- The two senders of a page: the header for the page, and the page with its NUL. -/
def sendPage (page : List Byte) : List Byte :=
  buildMessage ((untilNul page).length + 1) false page ++ (untilNul page ++ [0])

/-- `send_bad_request`. -/
def sendBadRequest (pages : Pages) : List Byte :=
  sendPage pages.badRequest

/-- `send_service_unavailable`. -/
def sendServiceUnavailable (pages : Pages) : List Byte :=
  sendPage pages.serviceUnavailable

/-- `send_image` of a file with the given content. -/
def sendImage (content : List Byte) (cmd : RqstStat) : List Byte :=
  buildMessage content.length true [] ++ if cmd = .getCmd then content else []

/-- What the server has to send: the file of the adapted image, the icon, and the pages. -/
structure Contents where
  adapted : List Byte
  icon : List Byte
  pages : Pages

/-- The bytes that an effect puts on the connection. -/
def transmit (contents : Contents) : Effect → Option (List Byte)
  | .sendServiceUnavailable _ => some (sendServiceUnavailable contents.pages)
  | .sendBadRequest _ => some (sendBadRequest contents.pages)
  | .sendImage _ .adapted cmd => some (sendImage contents.adapted cmd)
  | .sendImage _ .icon cmd => some (sendImage contents.icon cmd)
  | .sendImage _ .none _ => none
  | _ => some []

/-- The bytes that a list of effects puts on the connection. -/
def transmitted (contents : Contents) : List Effect → Option (List Byte)
  | [] => some []
  | effect :: rest =>
    (transmit contents effect).bind fun first ↦ (transmitted contents rest).map (first ++ ·)

/-! ### The bytes of a list of effects -/

theorem transmitted_append (contents : Contents) (first second : List Effect) :
    transmitted contents (first ++ second) =
      (transmitted contents first).bind fun text ↦
        (transmitted contents second).map (text ++ ·) := by
  induction first with
  | nil => simp [transmitted]
  | cons effect rest ih =>
    rw [List.cons_append, transmitted, transmitted, ih]
    cases transmit contents effect with
    | none => rfl
    | some head =>
      cases transmitted contents rest with
      | none => rfl
      | some tail =>
        cases transmitted contents second with
        | none => rfl
        | some last => simp

/-- Effects that send nothing can be left out. -/
theorem transmitted_append_of_silent {contents : Contents} {first second : List Effect}
    (hsilent : transmitted contents second = some []) :
    transmitted contents (first ++ second) = transmitted contents first := by
  rw [transmitted_append, hsilent]
  simp

/-! ### Header blocks -/

/-- The length of a file as the header shows it. -/
theorem untilNul_convertLongToString (value : ℕ) :
    untilNul (convertLongToString value) = numeral value := by
  have hsame : convertLongToString value = convertIntToString value := rfl
  rw [hsame, untilNul_convertIntToString, Int.toNat_natCast]

/-- The lines of the header of an image. -/
def imageLines (size : ℕ) : List (List Byte) :=
  [bytes "HTTP/1.1 200 OK", bytes "Server: 127.0.0.1", bytes "Content-Type: image/jpeg",
    bytes "Content-Transfer-Encoding: binary", bytes "Content-Length: " ++ numeral size,
    bytes "Keep-Alive: timeout=5, max=10"]

/-- The lines of the header of an error page. -/
def pageLines (size : ℕ) : List (List Byte) :=
  [bytes "HTTP/1.1 400 Bad Request", bytes "Server: 127.0.0.1", bytes "Content-Type: text/html",
    bytes "Content-Length: " ++ numeral size, bytes "Connection: Closed"]

theorem buildMessage_image (size : ℕ) (msgError : List Byte) :
    buildMessage size true msgError = headerBlock (imageLines size) := by
  have htype : bytes "Content-Type: image/jpeg" = bytes "Content-Type: image/" ++ bytes "jpeg" := by
    decide
  have hend : bytes "\r\n" = crlf := by decide
  have hends : bytes "\r\n\r\n" = crlf ++ crlf := by decide
  rw [buildMessage, if_pos rfl, untilNul_convertLongToString, hend, hends]
  simp [headerBlock, imageLines, htype]

/-- Both pages are announced as the one for a bad request: the second test of the length is the
first one again. -/
theorem buildMessage_page (page : List Byte) :
    buildMessage ((untilNul page).length + 1) false page =
      headerBlock (pageLines ((untilNul page).length + 1)) := by
  have hend : bytes "\r\n" = crlf := by decide
  have hends : bytes "\r\n\r\n" = crlf ++ crlf := by decide
  rw [buildMessage, if_neg Bool.false_ne_true, if_pos rfl, untilNul_convertLongToString, hend,
    hends]
  simp [headerBlock, pageLines]

/-- A line with a number in it. -/
theorem isLine_append_numeral {front : List Byte} (hfront : IsLine front) (size : ℕ) :
    IsLine (front ++ numeral size) := by
  refine ⟨List.append_ne_nil_of_left_ne_nil hfront.1 _, ?_⟩
  rw [List.mem_append, not_or]
  exact ⟨hfront.2, notMem_numeral (Or.inl (by decide)) size⟩

theorem isLine_imageLines (size : ℕ) : ∀ line ∈ imageLines size, IsLine line := by
  have hlength := isLine_append_numeral (by decide : IsLine (bytes "Content-Length: ")) size
  simp only [imageLines, List.forall_mem_cons]
  refine ⟨by decide, by decide, by decide, by decide, hlength, by decide, ?_⟩
  exact fun line hline ↦ absurd hline List.not_mem_nil

theorem isLine_pageLines (size : ℕ) : ∀ line ∈ pageLines size, IsLine line := by
  have hlength := isLine_append_numeral (by decide : IsLine (bytes "Content-Length: ")) size
  simp only [pageLines, List.forall_mem_cons]
  refine ⟨by decide, by decide, by decide, hlength, by decide, ?_⟩
  exact fun line hline ↦ absurd hline List.not_mem_nil

/-- The body of an image is its file, and there is none but for the method `GET`. -/
theorem bodyOf_sendImage (content : List Byte) (cmd : RqstStat) :
    bodyOf (sendImage content cmd) = some (if cmd = .getCmd then content else []) := by
  rw [sendImage, buildMessage_image]
  exact bodyOf_headerBlock (List.cons_ne_nil _ _) (isLine_imageLines _) _

/-- The body of a page is its text with the NUL. -/
theorem bodyOf_sendPage (page : List Byte) :
    bodyOf (sendPage page) = some (untilNul page ++ [0]) := by
  rw [sendPage, buildMessage_page]
  exact bodyOf_headerBlock (List.cons_ne_nil _ _) (isLine_pageLines _) _

end ImageApp.Server
