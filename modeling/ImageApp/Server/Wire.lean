import ImageApp.Server.MessageBuffer
import ImageApp.Server.Senders

/-!
# The bytes of the calls

What the senders of `Request.c` put on the connection when their calls are made one after the other.
`Senders` says at which positions of a buffer the bytes are that were accepted, and here they are
read from `msg` and from the pages. `msg` has 512 bytes, of which `build_message` writes the first
ones; the others are what was on the stack. Nothing is read outside of a buffer, and a sender that
is not done within the bound has no bytes.

`write_block` returns nothing when everything is written, and the sender of a page adds to `w` what
it finds in that place. Its loop ends there only if this makes `w` the length of the page.
-/

set_option autoImplicit false
set_option relaxedAutoImplicit false

namespace ImageApp.Server

open Foundations.CStrings Foundations.Extents Foundations.LoopRuns Senders

/-- What the calls for an answer do, what is found in place of the value that `write_block` does not
return, and what is in `msg` before the header is built. -/
structure Calls where
  send : Write
  write : Write
  sendfile : ℕ → Sendfile
  missing : ℤ
  msg : List Byte
  msg_length : msg.length = 512

/-- The bytes of a header, and whether `send` has returned -1. -/
def headerOnWire (calls : Calls) (fileSize : ℕ) (image : Bool) (msgError : List Byte) (fuel : ℕ) :
    Option (List Byte × Bool) :=
  (buildMessageInto fileSize image msgError calls.msg).bind fun (msg, lenHeader) ↦
    match sendHeader calls.send msg lenHeader fuel with
    | .running _ => none
    | .ended s failed => (readAt msg s.written).map fun header ↦ (header, failed)

/-- The bytes of `send_image`. -/
def imageOnWire (calls : Calls) (file : List Byte) (cmd : RqstStat) (fuel : ℕ) :
    Option (List Byte) :=
  (headerOnWire calls file.length true [] fuel).bind fun (header, _) ↦
    (Senders.sendImage calls.send calls.sendfile file file.length cmd fuel).map fun image ↦
      header ++ image.sent

/-- The bytes of the two senders of a page. A sender that does not end when the page is written has
none. -/
def pageOnWire (calls : Calls) (page : List Byte) (fuel : ℕ) : Option (List Byte) :=
  let len := (untilNul page).length + 1
  (headerOnWire calls len false page fuel).bind fun (header, _) ↦
    (sendErrorPage calls.send calls.write page fuel).bind fun (ended, body) ↦
      if ended = .undefined ∧ body.w + calls.missing ≠ len then none
      else (readAt (untilNul page ++ [0]) body.written).map (header ++ ·)

/-- The bytes that an effect puts on the connection with these calls. -/
def transmitBy (calls : Calls) (contents : Contents) (fuel : ℕ) : Effect → Option (List Byte)
  | .sendServiceUnavailable _ => pageOnWire calls contents.pages.serviceUnavailable fuel
  | .sendBadRequest _ => pageOnWire calls contents.pages.badRequest fuel
  | .sendImage _ .adapted cmd => imageOnWire calls contents.adapted cmd fuel
  | .sendImage _ .icon cmd => imageOnWire calls contents.icon cmd fuel
  | .sendImage _ .none _ => none
  | _ => some []

/-- The bytes that a list of effects puts on the connection, of which at most one sends. -/
def transmittedBy (calls : Calls) (contents : Contents) (fuel : ℕ) (effects : List Effect) :
    Option (List Byte) :=
  (effects.mapM (transmitBy calls contents fuel)).map List.flatten

end ImageApp.Server
