import ImageApp.Foundations.Tokens
import ImageApp.Server.HandleImage
import ImageApp.Server.Strings

/-!
# The accepted media types

`get_list_accept_image` of `Request.c`, cut at its calls of `strtok`: `nextCall` is the call in
front of which the function stands, and `resume` is everything between the return of a call and the
next call. The first loop splits the line at its commas and copies the tokens, and the second one
splits each copy at its semicolons and reads the quality. How the calls find the position that the
previous one has saved depends on who else calls `strtok`; `getListAcceptImage` is the function when
nobody does.

The list starts with room for four entries. When the fourth one is stored it is enlarged to
`preallocation + preallocation` bytes, which is eight bytes and less than an entry. The last token
is freed at the end, which frees the type of the last entry when the token starts where it starts.
`strtof` and the arithmetic are parameters.
-/

set_option autoImplicit false
set_option relaxedAutoImplicit false

namespace ImageApp.Server

open Foundations.CStrings

/-- The byte `','`. -/
abbrev comma : Byte := 44

/-- The byte `';'`. -/
abbrev semicolon : Byte := 59

/-- `struct image_node_t`, with the allocation that `type` points to: `none` when it was freed. -/
structure ImageNode where
  type : Option (List Byte)
  q : ℚ
  extension : ExtImage
  deriving DecidableEq

/-- `sizeof(ImageNode)`. -/
def sizeofImageNode : ℕ := 16

/-- `preallocation`. -/
def acceptPreallocation : ℕ := 4

/-- How `get_list_accept_image` ends: with a list, by ending the program, with an access outside an
allocation, with a search in a null pointer, or by freeing what is not an allocation. -/
inductive AcceptOutcome
  | parsed
  | aborted
  | outOfBounds
  | nullToken
  | invalidFree
  deriving DecidableEq

/-- The strings that the function splits. -/
inductive SplitString
  | acceptLine
  | type (i : ℕ)
  deriving DecidableEq

/-- The call of `strtok` in front of which the function stands. In front of the second call for an
entry it has the offset of `token1`. -/
inductive AcceptPlace
  | line
  | nextType
  | entry (i : ℕ)
  | parameter (i : ℕ) (token1 : Option ℕ)
  | ended (outcome : AcceptOutcome)
  deriving DecidableEq

/-- The variables of `get_list_accept_image`. The number of entries is `dim`, and `allocated` the
size of `buf_im_list` in bytes. -/
structure AcceptParse where
  acceptLine : List Byte
  bufImList : List ImageNode
  allocated : ℕ
  place : AcceptPlace
  deriving DecidableEq

/-- The start of `get_list_accept_image` on a line. -/
def startAcceptParse (acceptLine : List Byte) : AcceptParse where
  acceptLine := acceptLine ++ [0]
  bufImList := []
  allocated := acceptPreallocation * sizeofImageNode
  place := .line

namespace AcceptParse

/-- The region of a string. -/
def region (parse : AcceptParse) : SplitString → List Byte
  | .acceptLine => parse.acceptLine
  | .type i => (parse.bufImList[i]?.bind ImageNode.type).getD []

/-- The region of a string with new content. -/
def setRegion (parse : AcceptParse) (string : SplitString) (content : List Byte) : AcceptParse :=
  match string with
  | .acceptLine => { parse with acceptLine := content }
  | .type i =>
    { parse with
      bufImList := parse.bufImList.modify i fun node ↦
        { node with type := node.type.map fun _ ↦ content } }

/-- Whether all of an entry is inside `buf_im_list`. -/
def holds (parse : AcceptParse) (i : ℕ) : Bool :=
  (i + 1) * sizeofImageNode ≤ parse.allocated

/-- The end of the function, where the list is cut to its entries and `token1` is freed. For no
entries `realloc` returns `NULL`. -/
def finish (parse : AcceptParse) : AcceptParse :=
  if parse.bufImList = [] then { parse with place := .ended .aborted }
  else
    match parse.place with
    | .parameter i (some 0) =>
      { parse with
        bufImList := parse.bufImList.modify i fun node ↦ { node with type := none }
        place := .ended .parsed }
    | .parameter _ (some _) => { parse with place := .ended .invalidFree }
    | _ => { parse with place := .ended .parsed }

/-- The test of the second loop, and the argument of its first call. -/
def enterEntry (parse : AcceptParse) (i : ℕ) : AcceptParse :=
  if i < parse.bufImList.length then
    if parse.holds i then { parse with place := .entry i }
    else { parse with place := .ended .outOfBounds }
  else parse.finish

/-- The first loop from the return of a call on. `token1` is the region from the token on. -/
def storeType (parse : AcceptParse) (token1 : Option (List Byte)) : AcceptParse :=
  match token1 with
  | none => parse.enterEntry 0
  | some token1 =>
    let text := untilNul token1
    if (strstr text (bytes "text")).isSome ∨ (strstr text (bytes "application")).isSome then
      { parse with place := .nextType }
    else if parse.holds parse.bufImList.length then
      let dim := parse.bufImList.length + 1
      { parse with
        bufImList := parse.bufImList ++ [⟨some (text ++ [0]), 0, .jpg⟩]
        allocated :=
          if dim = acceptPreallocation then acceptPreallocation + acceptPreallocation
          else parse.allocated
        place := .nextType }
    else { parse with place := .ended .outOfBounds }

/-- The tests for the format of an entry without parameter. -/
def plainExtension (text : List Byte) (extension : ExtImage) : ExtImage :=
  if (strstr text (bytes "jpg")).isSome then .jpg
  else if (strstr text (bytes "jpeg")).isSome then .jpg
  else if (strstr text (bytes "png")).isSome then .png
  else if (strstr text (bytes "webp")).isSome then .webp
  else if (strstr text (bytes "jxr")).isSome then .jxr
  else extension

/-- The tests for the format at the end of the second loop. -/
def lastExtension (text : List Byte) (extension : ExtImage) : ExtImage :=
  let extension := if (strstr text (bytes "jpg")).isSome then .jpg else extension
  let extension := if (strstr text (bytes "jpeg")).isSome then .jpg else extension
  if (strstr text (bytes "png")).isSome then .png else extension

/-- The stores of the second loop into an entry, and the test for the next one. -/
def storeEntry (parse : AcceptParse) (i : ℕ) (store : ImageNode → ImageNode) : AcceptParse :=
  { parse with bufImList := parse.bufImList.modify i store }.enterEntry (i + 1)

section Quality

variable (arith : Arithmetic) (strtof : List Byte → ℚ × Bool)

/-- The quality when none can be read, as a `float`. -/
def fallbackQuality : ℚ :=
  arith.single (arith.double (8 / 10))

/-- `strtof(token2 + 3, &s)`: the value, and whether `errno` is set. `none` when this is outside the
allocation. -/
def readQuality (token2 : List Byte) : Option (ℚ × Bool) :=
  if 3 < token2.length then some (strtof (untilNul (token2.drop 3))) else none

/-- The second loop from the test for `"*/*"` on, for an entry of any type. -/
def parseAllTypes (parse : AcceptParse) (i : ℕ) (token2 : Option (List Byte)) : AcceptParse :=
  match token2 with
  | none => parse.storeEntry i fun node ↦ { node with extension := .allExt }
  | some token2 =>
    match readQuality strtof token2 with
    | none => { parse with place := .ended .outOfBounds }
    | some (q, _) =>
      parse.storeEntry i fun node ↦
        { node with
          q := if q = 0 then fallbackQuality arith else q
          extension := .allExt }

/-- The end of the second loop, for an entry of one type with its parameter. `token1` may be null
here. -/
def parseLast (parse : AcceptParse) (i : ℕ) (token1 token2 : Option (List Byte)) : AcceptParse :=
  let quality : Option (ImageNode → ℚ) :=
    match token2 with
    | none => some ImageNode.q
    | some token2 =>
      (readQuality strtof token2).map fun (q, error) _ ↦
        if error then fallbackQuality arith else q
  match quality, token1 with
  | none, _ => { parse with place := .ended .outOfBounds }
  | some _, none => { parse with place := .ended .nullToken }
  | some quality, some token1 =>
    parse.storeEntry i fun node ↦
      { node with
        q := quality node
        extension := lastExtension (untilNul token1) node.extension }

/-- The second loop from the return of its second call on. `token1` and `token2` are the regions
from the tokens on. -/
def parseEntry (parse : AcceptParse) (i : ℕ) (token1 token2 : Option (List Byte)) : AcceptParse :=
  match token1 with
  | none => parse.parseLast arith strtof i none token2
  | some token =>
    let text := untilNul token
    if (strstr text (bytes "image/")).isSome ∧ token2 = none then
      parse.storeEntry i fun node ↦
        if text = bytes "image/*" then { node with q := 1, extension := .allExt }
        else { node with q := 1, extension := plainExtension text node.extension }
    else if (strstr text (bytes "*/*")).isSome then parse.parseAllTypes arith strtof i token2
    else parse.parseLast arith strtof i token1 token2

/-- `get_list_accept_image` from the return of a call on. The call has returned an offset of a
region, or `NULL`. -/
def resume (parse : AcceptParse) (token : Option (ℕ × List Byte)) : AcceptParse :=
  let tokenRegion := token.map fun (offset, region) ↦ region.drop offset
  match parse.place with
  | .line | .nextType => parse.storeType tokenRegion
  | .entry i => { parse with place := .parameter i (token.map Prod.fst) }
  | .parameter i token1 =>
    parse.parseEntry arith strtof i (token1.map fun offset ↦ (parse.region (.type i)).drop offset)
      tokenRegion
  | .ended _ => parse

end Quality

/-- The call of `strtok` in front of which the function stands: the separator, and the string with
which a new series of calls starts. -/
def nextCall (parse : AcceptParse) : Option (Byte × Option SplitString) :=
  match parse.place with
  | .line => some (comma, some .acceptLine)
  | .nextType => some (comma, none)
  | .entry i => some (semicolon, some (.type i))
  | .parameter _ _ => some (semicolon, none)
  | .ended _ => none

end AcceptParse

/-! ### The function on its own -/

/-- The variables of the function and the position that `strtok` has saved, when nobody else calls
it: a string and an offset. -/
structure AcceptCall where
  parse : AcceptParse
  saved : SplitString × ℕ
  deriving DecidableEq

/-- The next call of `strtok` with what the function does behind it. There is none when the function
has ended. -/
def acceptCall (arith : Arithmetic) (strtof : List Byte → ℚ × Bool) (s : AcceptCall) : AcceptCall :=
  match s.parse.nextCall with
  | none => s
  | some (sep, string) =>
    let position := (string.map fun string ↦ (string, 0)).getD s.saved
    let call := Foundations.Tokens.strtok sep (s.parse.region position.1) position.2
    { parse := (s.parse.setRegion position.1 call.region).resume arith strtof
        (call.token.map fun offset ↦ (offset, call.region))
      saved := (position.1, call.saved) }

/-- `get_list_accept_image` after some calls of `strtok`. -/
def getListAcceptImage (arith : Arithmetic) (strtof : List Byte → ℚ × Bool)
    (acceptLine : List Byte) (calls : ℕ) : AcceptCall :=
  (acceptCall arith strtof)^[calls] ⟨startAcceptParse acceptLine, (.acceptLine, 0)⟩

end ImageApp.Server
