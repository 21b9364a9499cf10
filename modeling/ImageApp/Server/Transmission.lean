import ImageApp.Server.Config

/-!
# Sending a file

The loop of `send_file_fd`. What a call of `sendfile` does is a function of the number of the call,
the offset and the count that it is given: it sends bytes of the file from the offset on and
advances the offset by their number itself, or it fails. The loop has a bound on its calls, and is
`none` while it is not done within the bound.
-/

set_option autoImplicit false
set_option relaxedAutoImplicit false

namespace ImageApp.Server

open Foundations.CStrings

/-- What a call of `sendfile` does: it sends bytes, or it fails because the client is gone or for
another reason. -/
inductive SendfileResult
  | sent (v : ℕ)
  | brokenPipe
  | failed
  deriving DecidableEq, Repr

/-- The calls of `sendfile` on a connection. -/
abbrev Sendfile := ℕ → ℕ → ℕ → SendfileResult

/-- The loop of `send_file_fd` from a call on, with the bytes that were put on the connection. -/
def sendFileLoop (sendfile : Sendfile) (file : List Byte) (size call len offset : ℕ)
    (sent : List Byte) : ℕ → Option (ℤ × List Byte)
  | 0 => none
  | fuel + 1 =>
    if len < size then
      match sendfile call offset (size - len) with
      | .brokenPipe => some (RqstStat.connectionClosed.code, sent)
      | .failed => some (RqstStat.errorSendingMessage.code, sent)
      | .sent v =>
        -- `sendfile` has advanced the offset, and the loop advances it again.
        sendFileLoop sendfile file size (call + 1) (len + v) (offset + v + v)
          (sent ++ (file.drop offset).take v) fuel
    else some (len, sent)

/-- `send_file_fd`: the result, and the bytes that were put on the connection. -/
def sendFileFd (sendfile : Sendfile) (file : List Byte) (size fuel : ℕ) : Option (ℤ × List Byte) :=
  sendFileLoop sendfile file size 0 0 0 [] fuel

end ImageApp.Server
