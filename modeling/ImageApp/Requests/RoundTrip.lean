import ImageApp.Server.Reception
import ImageApp.Server.RequestLine

/-!
# Parsing inverts the format of a request

A request is written from its parts: a method, a name with an extension, the values of the two
headers that the server reads, and any other header lines around these. `FormattedRequest` holds the
parts together with the bounds within which the scanners of `Request.c` read them back.

`parseRequest_formatted` says that `parse_request` returns the parts. Each scanner stops at another
byte, so each part has a list of bytes that it must not hold. The bounds are those of the copies:
the value of `Accept: ` may fill its copy to the last byte but one, where the carriage return behind
it is overwritten, and the value of `User-Agent: ` must leave room for the carriage return.
-/

set_option autoImplicit false
set_option relaxedAutoImplicit false

namespace ImageApp.Requests

open Foundations.CStrings Server

/-! ### The format -/

/-- The methods that the server knows. -/
inductive Method
  | get
  | head
  deriving DecidableEq, Repr

/-- The method as it is written. -/
def Method.text : Method → List Byte
  | .get => bytes "GET"
  | .head => bytes "HEAD"

/-- The code of the method. -/
def Method.cmd : Method → RqstStat
  | .get => .getCmd
  | .head => .headCmd

/-- A header line: one of the two that the server reads, or another one. -/
inductive Header
  | userAgent
  | accept
  | other (line : List Byte)
  deriving DecidableEq, Repr

/-- What a request is written from. -/
structure RequestParts where
  method : Method
  name : List Byte
  ext : List Byte
  userAgent : List Byte
  accept : List Byte
  headers : List Header

/-- The end of a line. -/
def crlf : List Byte := [carriageReturn, 10]

namespace RequestParts

variable (parts : RequestParts)

/-- The line with the method and the image. -/
def requestLine : List Byte :=
  parts.method.text ++ space :: slash :: questionMark ::
    (parts.name ++ dot :: (parts.ext ++ space :: bytes "HTTP/1.1"))

/-- A header as it is written. -/
def headerLine : Header → List Byte
  | .userAgent => bytes "User-Agent: " ++ parts.userAgent
  | .accept => bytes "Accept: " ++ parts.accept
  | .other line => line

/-- Headers one after another. -/
def headerLines (headers : List Header) : List Byte :=
  headers.flatMap fun header ↦ parts.headerLine header ++ crlf

/-- The whole request, with the blank line at its end. -/
def text : List Byte :=
  parts.requestLine ++ crlf ++ parts.headerLines parts.headers ++ crlf

/-- The message slot that holds the request. -/
def slot : List Byte :=
  padded parts.text

/-- The offset of the first line of the kind. -/
def offsetOf (header : Header) : ℕ :=
  (parts.requestLine ++ crlf ++ parts.headerLines (parts.headers.takeWhile (· ≠ header))).length

end RequestParts

/-- None of the bytes occurs in the text. -/
def Free (text stops : List Byte) : Prop :=
  ∀ stop ∈ stops, stop ∉ text

instance decidableFree (text stops : List Byte) : Decidable (Free text stops) :=
  inferInstanceAs (Decidable (∀ stop ∈ stops, stop ∉ text))

/-- A request that the scanners can read back. The first occurrences of the two header names in the
string of the slot are the headers themselves. -/
structure FormattedRequest extends RequestParts where
  length_name : name.length ≤ 127
  name_free : Free name [dot, space, carriageReturn, 0]
  length_ext : ext.length = 3
  ext_free : Free ext [space, carriageReturn, 0]
  length_userAgent : userAgent.length ≤ 242
  userAgent_free : Free userAgent [carriageReturn, 0]
  length_accept : accept.length ≤ 119
  accept_free : Free accept [carriageReturn, 0]
  length_text : toRequestParts.text.length < httpMessageSize
  userAgent_mem : .userAgent ∈ headers
  userAgent_first : FirstOccurrence (untilNul toRequestParts.slot) (bytes "User-Agent: ")
    (toRequestParts.offsetOf .userAgent)
  userAgent_offset : toRequestParts.offsetOf .userAgent ≤ 256
  accept_mem : .accept ∈ headers
  accept_first : FirstOccurrence (untilNul toRequestParts.slot) (bytes "Accept: ")
    (toRequestParts.offsetOf .accept)
  accept_offset : toRequestParts.offsetOf .accept ≤ 384

/-! ### The first line -/

/-- The method is the first one that `parse_command` meets. -/
theorem parseCommand_method (method : Method) (rest : List Byte) :
    parseCommand (method.text ++ rest) = method.cmd := by
  have hget : bytes "GET" = [71, 69, 84] := by decide
  have hhead : bytes "HEAD" = [72, 69, 65, 68] := by decide
  cases method with
  | get => simp [Method.text, Method.cmd, hget, parseCommand]
  | head => simp [Method.text, Method.cmd, hget, hhead, parseCommand]

/-- The method and the blank behind it hold none of the bytes that end a scan of the line. -/
theorem method_free (method : Method) :
    Free (method.text ++ [space]) [slash, carriageReturn, 0] := by
  cases method with
  | get => decide +kernel
  | head => decide +kernel

namespace FormattedRequest

variable (request : FormattedRequest)

/-- The first line ends behind the protocol version. -/
theorem requestLine_free : Free request.requestLine [carriageReturn, 0] := by
  intro stop hstop
  have hmethod : stop ∉ request.method.text ++ [space] :=
    method_free request.method stop (List.mem_cons_of_mem _ hstop)
  have hname : stop ∉ request.name :=
    request.name_free stop (List.mem_cons_of_mem _ (List.mem_cons_of_mem _ hstop))
  have hext : stop ∉ request.ext := request.ext_free stop (List.mem_cons_of_mem _ hstop)
  have hfixed : Free (slash :: questionMark :: dot :: space :: bytes "HTTP/1.1")
      [carriageReturn, 0] := by decide +kernel
  have hothers := hfixed stop hstop
  simp only [List.mem_append, List.mem_cons, List.not_mem_nil, or_false, not_or] at hmethod hothers
  simp only [RequestParts.requestLine, List.mem_append, List.mem_cons, not_or]
  exact ⟨hmethod.1, hmethod.2, hothers.1, hothers.2.1, hname, hothers.2.2.1, hext,
    hothers.2.2.2.1, hothers.2.2.2.2⟩

/-- The slot starts with the first line and a carriage return. -/
theorem slot_eq : ∃ rest, request.slot = request.requestLine ++ carriageReturn :: rest := by
  simp only [RequestParts.slot, RequestParts.text, padded, crlf, List.append_assoc,
    List.cons_append]
  exact ⟨_, rfl⟩

theorem getCommandLine_slot : getCommandLine request.slot = some request.requestLine := by
  obtain ⟨rest, hslot⟩ := request.slot_eq
  rw [getCommandLine, hslot, upToReturn_append (request.requestLine_free _ (by simp))]

/-- The method and a blank come before the first `'/'` of the line. -/
theorem requestLine_eq :
    request.requestLine = (request.method.text ++ [space]) ++ slash :: questionMark ::
      (request.name ++ dot :: (request.ext ++ space :: bytes "HTTP/1.1")) := by
  rw [List.append_assoc]
  rfl

theorem parseName_requestLine :
    parseName request.requestLine = some (.imageRequested request.name (dot :: request.ext)) := by
  have hfront : Free (request.method.text ++ [space]) [slash, carriageReturn, 0] :=
    method_free request.method
  have hname : parseNameAfterMark
      (request.name ++ dot :: (request.ext ++ space :: bytes "HTTP/1.1")) =
        some (.imageRequested (untilNul request.name)
          (dot :: untilNul (request.ext.take 3))) :=
    parseNameAfterMark_append (request.name_free dot (by simp)) (request.name_free space (by simp))
      (request.ext_free space (by simp)) _
  rw [requestLine_eq, parseName_append (hfront 0 (by simp)) (hfront slash (by simp)),
    parseNameAtSlash, if_pos rfl, hname, List.take_of_length_le request.length_ext.le,
    untilNul_of_notMem (request.name_free 0 (by simp)),
    untilNul_of_notMem (request.ext_free 0 (by simp))]

/-! ### The headers -/

/-- At the offset of a header the slot holds its line, and a carriage return behind it. -/
theorem drop_offsetOf {header : Header} (hmem : header ∈ request.headers) :
    ∃ rest, request.slot.drop (request.offsetOf header) =
      request.headerLine header ++ carriageReturn :: rest := by
  obtain ⟨before, after, hheaders, hbefore⟩ := List.eq_append_cons_of_mem hmem
  have htake : request.headers.takeWhile (· ≠ header) = before := by
    rw [hheaders, takeWhile_ne_append_cons hbefore]
  have hslot : request.slot = (request.requestLine ++ crlf ++ request.headerLines before) ++
      (request.headerLine header ++ carriageReturn ::
        (10 :: (request.headerLines after ++ crlf) ++
          zeros (httpMessageSize - request.text.length))) := by
    rw [RequestParts.slot, padded]
    nth_rewrite 1 [RequestParts.text]
    rw [hheaders]
    simp [RequestParts.headerLines, crlf]
  rw [RequestParts.offsetOf, htake, hslot, List.drop_left' rfl]
  exact ⟨_, rfl⟩

theorem length_slot : request.slot.length = httpMessageSize := by
  have hfits := request.length_text
  rw [RequestParts.slot, padded, List.length_append, length_zeros]
  omega

/-- The slot holds a string. -/
theorem cstring_slot : cstring request.slot = some (untilNul request.slot) := by
  have hfits := request.length_text
  obtain ⟨room, hroom⟩ : ∃ room, httpMessageSize - request.text.length = room + 1 :=
    ⟨httpMessageSize - request.text.length - 1, by omega⟩
  have hzero : (0 : Byte) ∈ request.slot := by
    rw [RequestParts.slot, padded, hroom]
    simp [zeros]
  rw [cstring, if_pos hzero]

/-- A copy of fixed size from a header on, whose last byte is cleared, holds the value of the header
and, when there is room for it, the carriage return. -/
theorem exists_copiedValue {header : Header} (hmem : header ∈ request.headers)
    {field value : List Byte} (hline : request.headerLine header = field ++ value) {size : ℕ}
    (hsize : field.length + value.length < size) :
    ∃ left,
      (((request.slot.drop (request.offsetOf header)).take size).set (size - 1) 0).drop
        field.length =
        value ++ (if field.length + value.length + 1 < size then carriageReturn else 0) ::
          left := by
  obtain ⟨rest, hdrop⟩ := request.drop_offsetOf hmem
  obtain ⟨left, hcopy⟩ :=
    @exists_clearedCopy value rest carriageReturn (size - field.length) (by omega)
  have hroom : value.length + 1 < size - field.length ↔
      field.length + value.length + 1 < size := by omega
  rw [hdrop, hline, List.append_assoc, drop_clearedCopy _ _ (by omega), hcopy]
  simp only [hroom]
  exact ⟨left, rfl⟩

theorem getAcceptLine_slot : getAcceptLine request.slot = some request.accept := by
  have hreturn : carriageReturn ∉ request.accept := request.accept_free _ (by simp)
  have hzero : (0 : Byte) ∉ request.accept := request.accept_free _ (by simp)
  have hfield : (bytes "Accept: ").length = 8 := by decide
  have hlength := request.length_accept
  have hfits : request.offsetOf .accept + 128 ≤ request.slot.length := by
    have hoffset := request.accept_offset
    rw [length_slot, httpMessageSize]
    omega
  obtain ⟨left, hvalue⟩ := @exists_copiedValue request .accept request.accept_mem
    (bytes "Accept: ") request.accept rfl 128 (by omega)
  rw [hfield] at hvalue
  rw [getAcceptLine, cstring_slot, Option.bind_some, strstr_eq_some_iff.mpr request.accept_first,
    Option.bind_some, if_pos hfits, Option.some.injEq, hvalue, takeWhile_ne_append hreturn]
  split_ifs with hroom
  · -- The carriage return behind the value is in the copy.
    rw [List.takeWhile_cons_of_neg (by simp), List.append_nil, untilNul_of_notMem hzero]
  · -- The value ends where the copy is cut off.
    rw [List.takeWhile_cons_of_pos (by decide), untilNul_append_zero hzero]

theorem getUserAgent_slot : getUserAgent request.slot = some request.userAgent := by
  have hreturn : carriageReturn ∉ request.userAgent := request.userAgent_free _ (by simp)
  have hzero : (0 : Byte) ∉ request.userAgent := request.userAgent_free _ (by simp)
  have hfield : (bytes "User-Agent: ").length = 12 := by decide
  have hlength := request.length_userAgent
  have hfits : request.offsetOf .userAgent + 256 ≤ request.slot.length := by
    have hoffset := request.userAgent_offset
    rw [length_slot, httpMessageSize]
    omega
  obtain ⟨left, hvalue⟩ := @exists_copiedValue request .userAgent request.userAgent_mem
    (bytes "User-Agent: ") request.userAgent rfl 256 (by omega)
  rw [hfield, if_pos (by omega)] at hvalue
  rw [getUserAgent, cstring_slot, Option.bind_some,
    strstr_eq_some_iff.mpr request.userAgent_first, Option.bind_some, if_pos hfits]
  simp only [hvalue]
  rw [upToReturn_append hreturn, Option.map_some, untilNul_of_notMem hzero]

end FormattedRequest

/-! ### The request -/

/-- The parts of a request as `parse_request` returns them. -/
def RequestParts.parsed (parts : RequestParts) : ParsedRequest where
  cmd := parts.method.cmd
  imageName := parts.name
  imageNameStorage := .heap
  ext := some (dot :: parts.ext)
  acceptLine := some parts.accept
  userAgent := some parts.userAgent

/-- `parse_request` inverts the format: it returns the parts of the request, and the work buffers
hold the name and the extension whole. -/
theorem parseRequest_formatted (request : FormattedRequest)
    (fresh : Fin imageNamePreallocation → Byte) :
    parseRequest request.slot = some (.requestReceived, request.parsed) ∧
      (nameBuffer fresh request.name).bind cstring = some request.name ∧
        (extBuffer (dot :: request.ext)).bind cstring = some (dot :: request.ext) := by
  refine ⟨?_, ?_, ?_⟩
  · have hcommand : parseCommand (untilNul request.requestLine) = request.method.cmd := by
      rw [untilNul_of_notMem (request.requestLine_free 0 (by simp))]
      exact parseCommand_method request.method _
    rw [parseRequest, request.getCommandLine_slot, Option.bind_some,
      request.parseName_requestLine, Option.bind_some]
    simp only [request.getAcceptLine_slot, request.getUserAgent_slot, Option.bind_some,
      Option.map_some, hcommand]
    rfl
  · rw [nameBuffer_spec fresh request.length_name,
      untilNul_of_notMem (request.name_free 0 (by simp))]
  · have hlength : (dot :: request.ext).length = 4 := by
      rw [List.length_cons, request.length_ext]
    have hzero : (0 : Byte) ∉ dot :: request.ext := by
      rw [List.mem_cons, not_or]
      exact ⟨by decide, request.ext_free 0 (by simp)⟩
    rw [extBuffer_spec (by omega), List.take_of_length_le hlength.le, untilNul_of_notMem hzero]

/-- A photo for a browser. -/
def photoRequest : FormattedRequest where
  method := .get
  name := bytes "photo"
  ext := bytes "jpg"
  userAgent := bytes "browser"
  accept := bytes "image/*"
  headers := [.userAgent, .accept, .other (bytes "Connection: close")]
  length_name := by decide +kernel
  name_free := by decide +kernel
  length_ext := by decide +kernel
  ext_free := by decide +kernel
  length_userAgent := by decide +kernel
  userAgent_free := by decide +kernel
  length_accept := by decide +kernel
  accept_free := by decide +kernel
  length_text := by decide +kernel
  userAgent_mem := by decide +kernel
  userAgent_first := strstr_eq_some_iff.mp (by decide +kernel)
  userAgent_offset := by decide +kernel
  accept_mem := by decide +kernel
  accept_first := strstr_eq_some_iff.mp (by decide +kernel)
  accept_offset := by decide +kernel

theorem parseRequest_photo :
    photoRequest.text = photoHead ++ photoTail ∧
      parseRequest photoRequest.slot = some (.requestReceived, photoRequest.parsed) :=
  ⟨by decide +kernel, (parseRequest_formatted photoRequest fun _ ↦ 0).1⟩

end ImageApp.Requests
