import ImageApp.Foundations.CStrings

/-!
# Constants of the server

The sizes and paths of `Config.h`, the return codes of `enum rqst_stat` in `Request.h`, and the
ASCII bytes that the scanners compare with.
-/

set_option autoImplicit false
set_option relaxedAutoImplicit false

namespace ImageApp.Server

open Foundations.CStrings

/-- `HTTP_MESSAGE_SIZE`, the bytes allocated per message. -/
def httpMessageSize : ℕ := 512

/-- `SIZE_FILE_LISTCACHE`, the bytes of the mapped list of cached paths. -/
def sizeFileListcache : ℕ := 16384

/-- `IMAGE_NAME_PREALLOCATION`, the bytes that are first allocated for an image name. -/
def imageNamePreallocation : ℕ := 64

/-- `IMAGE_DIR`. -/
def imageDir : List Byte := bytes "../images/"

/-- `IMAGE_CACHE`. -/
def imageCache : List Byte := bytes "../cache/"

/-- `ICON_NAME`. -/
def iconName : List Byte := bytes "favicon.ico"

/-- `enum rqst_stat`. -/
inductive RqstStat
  | ok
  | imageRequested
  | messageNotCorrect
  | requestTooLong
  | emptyPath
  | emptyMessage
  | imageNotPresent
  | iconRequested
  | requestReceived
  | headCmd
  | getCmd
  | errorSendingMessage
  | connectionClosed
  deriving DecidableEq, Repr

/-- The numbers of the enumeration. -/
def RqstStat.code : RqstStat → ℤ
  | .ok => 0
  | .imageRequested => 1
  | .messageNotCorrect => 2
  | .requestTooLong => 3
  | .emptyPath => 4
  | .emptyMessage => 5
  | .imageNotPresent => 6
  | .iconRequested => 7
  | .requestReceived => 8
  | .headCmd => 9
  | .getCmd => 10
  | .errorSendingMessage => 11
  | .connectionClosed => 12

/-- Where a string lives: `parse_name` allocates it, two paths of `parse_request` set a literal. -/
inductive Storage
  | heap
  | literal
  deriving DecidableEq, Repr

/-- The byte `'/'`. -/
abbrev slash : Byte := 47

/-- The byte `'?'`. -/
abbrev questionMark : Byte := 63

/-- The byte `'.'`. -/
abbrev dot : Byte := 46

/-- The byte `' '`. -/
abbrev space : Byte := 32

/-- The byte `'\r'`. -/
abbrev carriageReturn : Byte := 13

end ImageApp.Server
