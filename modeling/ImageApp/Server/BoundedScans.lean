import ImageApp.Server.RequestLine

/-!
# The scanners with the bounds of their buffers

`get_command_line`, `get_accept_line`, `get_user_agent` and `parse_name` once more, access by
access. A read outside the message, the line or a local array and a write outside a local array or a
work buffer give `none`, and so does a header that is not there.

`boundedCommandLine_eq`, `boundedAcceptLine_eq` and `boundedUserAgent_eq` say that the local arrays
are large enough for what is copied into them, and that the three functions are otherwise those of
`RequestLine`. The work buffers of `parse_name` are not. It is modelled here on a line that ends at
its first NUL, and `parseName_of_bounded` says that within the bounds it is the same function.
-/

set_option autoImplicit false
set_option relaxedAutoImplicit false

namespace ImageApp.Server

open Foundations.CStrings

/-! ### Headers -/

/-- A loop that copies up to a carriage return into a local array, from index `i` on, and ends the
copy with a NUL there. -/
def copyToReturn (size i : ℕ) : List Byte → Option (List Byte)
  | [] => none
  | byte :: rest =>
    if i < size then
      if byte = carriageReturn then some [] else (copyToReturn size (i + 1) rest).map (byte :: ·)
    else none

/-- The same loop with an end: it copies up to the given number of bytes, and writes no NUL behind
them. -/
def copyAtMost (size i : ℕ) : ℕ → List Byte → Option (List Byte)
  | 0, _ => some []
  | _ + 1, [] => none
  | left + 1, byte :: rest =>
    if i < size then
      if byte = carriageReturn then some []
      else (copyAtMost size (i + 1) left rest).map (byte :: ·)
    else none

/-- `memcpy` from an offset of a region into a local array. -/
def memcpy (size : ℕ) (region : List Byte) (offset count : ℕ) : Option (List Byte) :=
  if offset + count ≤ region.length ∧ count ≤ size then some ((region.drop offset).take count)
  else none

/-- A store into an array. -/
def store (array : List Byte) (index : ℕ) (byte : Byte) : Option (List Byte) :=
  if index < array.length then some (array.set index byte) else none

/-- `get_command_line`. -/
def boundedCommandLine (message : List Byte) : Option (List Byte) :=
  copyToReturn 512 0 message

/-- `get_accept_line`. -/
def boundedAcceptLine (message : List Byte) : Option (List Byte) :=
  (cstring message).bind fun text ↦
    (strstr text (bytes "Accept: ")).bind fun offset ↦
      (memcpy 128 message offset 128).bind fun tmp ↦
        (store tmp 127 0).bind fun tmp ↦ (copyAtMost 128 0 120 (tmp.drop 8)).map untilNul

/-- `get_user_agent`. -/
def boundedUserAgent (message : List Byte) : Option (List Byte) :=
  (cstring message).bind fun text ↦
    (strstr text (bytes "User-Agent: ")).bind fun offset ↦
      (memcpy 256 message offset 256).bind fun tmp ↦
        (store tmp 255 0).bind fun tmp ↦ (copyToReturn 256 0 (tmp.drop 12)).map untilNul

/-- A local array with room for the whole source is not left. -/
theorem copyToReturn_eq {size i : ℕ} {source : List Byte} (hroom : i + source.length ≤ size) :
    copyToReturn size i source = upToReturn source := by
  induction source generalizing i with
  | nil => rfl
  | cons byte source ih =>
    rw [List.length_cons] at hroom
    have hi : i < size := by omega
    rw [copyToReturn, upToReturn, if_pos hi, ih (by omega)]

theorem copyAtMost_eq {size i left : ℕ} {source : List Byte} (hroom : i + left ≤ size)
    (hlength : source.length = left) :
    copyAtMost size i left source = some (source.takeWhile (· ≠ carriageReturn)) := by
  induction source generalizing i left with
  | nil =>
    rw [← hlength]
    rfl
  | cons byte source ih =>
    rw [List.length_cons] at hlength
    subst hlength
    have hi : i < size := by omega
    rw [copyAtMost, if_pos hi, ih (by omega) rfl]
    by_cases hreturn : byte = carriageReturn
    · simp [hreturn]
    · simp [hreturn]

theorem boundedCommandLine_eq {message : List Byte} (hlength : message.length ≤ 512) :
    boundedCommandLine message = getCommandLine message := by
  rw [boundedCommandLine, getCommandLine, copyToReturn_eq (by omega)]

/-- A copy with a NUL at its end. -/
theorem memcpy_bind_store {region : List Byte} {offset size : ℕ} {β : Type*}
    (body : List Byte → Option β) (hsize : 0 < size) :
    ((memcpy size region offset size).bind fun tmp ↦ (store tmp (size - 1) 0).bind body) =
      if offset + size ≤ region.length then
        body (((region.drop offset).take size).set (size - 1) 0)
      else none := by
  by_cases hread : offset + size ≤ region.length
  · have hlength : ((region.drop offset).take size).length = size := by
      rw [List.length_take, List.length_drop]
      omega
    rw [memcpy, if_pos ⟨hread, le_rfl⟩, if_pos hread, Option.bind_some, store,
      if_pos (by rw [hlength]; omega), Option.bind_some]
  · rw [memcpy, if_neg (fun hboth ↦ hread hboth.1), if_neg hread, Option.bind_none]

theorem boundedAcceptLine_eq (message : List Byte) :
    boundedAcceptLine message = getAcceptLine message := by
  rw [boundedAcceptLine, getAcceptLine]
  refine congrArg _ (funext fun text ↦ congrArg _ (funext fun offset ↦ ?_))
  rw [@memcpy_bind_store message offset 128 _ _ (by decide)]
  by_cases hread : offset + 128 ≤ message.length
  · have hlength : ((((message.drop offset).take 128).set 127 0).drop 8).length = 120 := by
      rw [List.length_drop, List.length_set, List.length_take, List.length_drop]
      omega
    simp only [if_pos hread, copyAtMost_eq (by decide : 0 + 120 ≤ 128) hlength, Option.map_some]
  · simp only [if_neg hread]

theorem boundedUserAgent_eq (message : List Byte) :
    boundedUserAgent message = getUserAgent message := by
  rw [boundedUserAgent, getUserAgent]
  refine congrArg _ (funext fun text ↦ congrArg _ (funext fun offset ↦ ?_))
  rw [@memcpy_bind_store message offset 256 _ _ (by decide)]
  by_cases hread : offset + 256 ≤ message.length
  · have hroom : 0 + ((((message.drop offset).take 256).set 255 0).drop 12).length ≤ 256 := by
      rw [List.length_drop, List.length_set, List.length_take, List.length_drop]
      omega
    simp only [if_pos hread, copyToReturn_eq hroom]
  · simp only [if_neg hread]

/-! ### The image name -/

/-- The capacity of `p` when `j` bytes have been written: it is enlarged when the bytes allocated
first are used up. -/
def growCapacity (capacity j : ℕ) : ℕ :=
  if j = imageNamePreallocation then imageNamePreallocation + imageNamePreallocation else capacity

/-- The first inner loop of `parse_name` with its writes to `p`, from index `j` on: the name, the
capacity of `p` behind it, and the line from the byte on at which the loop stops. -/
def boundedScanName (capacity j : ℕ) : List Byte → Option (List Byte × ℕ × List Byte)
  | [] => none
  | byte :: rest =>
    if byte = dot ∨ byte = space then some ([], capacity, byte :: rest)
    else if j < capacity then
      (boundedScanName (growCapacity capacity (j + 1)) (j + 1) rest).map
        fun (name, capacity, left) ↦ (byte :: name, capacity, left)
    else none

/-- The second inner loop with its writes to `e`, from index `j` on. -/
def boundedScanExt (capacity j : ℕ) : List Byte → Option (List Byte)
  | [] => none
  | byte :: rest =>
    if byte = space then some []
    else if j < capacity then (boundedScanExt capacity (j + 1) rest).map (byte :: ·)
    else none

/-- The branch of `parse_name` after `"/?"`. The NUL behind the name is a write to `p`, and the one
at index 4 of `e` is inside `e`. -/
def boundedAfterMark (rest : List Byte) : Option NameOutcome :=
  (boundedScanName imageNamePreallocation 0 rest).bind fun (name, capacity, left) ↦
    if left.head? = some space then some .messageNotCorrect
    else if name.length < capacity then
      (boundedScanExt 5 0 left).map fun ext ↦ .imageRequested name (ext.take 4)
    else none

/-- The branches of `parse_name` at a `'/'`, on what follows it with the NUL of the line. -/
def boundedAtSlash (line : List Byte) : List Byte → Option NameOutcome
  | [] => none
  | next :: rest =>
    if next = questionMark then boundedAfterMark rest
    else if next = space then some .emptyPath
    else some (parseNameIcon line)

/-- The loop of `parse_name` over `line`. -/
def boundedParseLoop (line : List Byte) : List Byte → Option NameOutcome
  | [] => some (.imageRequested [] [])
  | byte :: rest =>
    if byte = slash then boundedAtSlash line (rest ++ [0]) else boundedParseLoop line rest

/-- `parse_name`. -/
def boundedParseName (line : List Byte) : Option NameOutcome :=
  boundedParseLoop line line

/-! ### Within the bounds -/

/-- A scan that stays inside `p` and the line with its NUL stops where the scan of the line does. -/
theorem scanName_of_bounded {capacity j capacity' : ℕ} {rest name left : List Byte}
    (hscan : boundedScanName capacity j (rest ++ [0]) = some (name, capacity', left)) :
    ∃ left', left = left' ++ [0] ∧ scanName rest = some (name, left') := by
  induction rest generalizing capacity j name with
  | nil =>
    have hzero : ¬ ((0 : Byte) = dot ∨ (0 : Byte) = space) := by decide
    rw [List.nil_append, boundedScanName, if_neg hzero] at hscan
    split_ifs at hscan
    cases hscan
  | cons byte rest ih =>
    rw [List.cons_append, boundedScanName] at hscan
    by_cases hstop : byte = dot ∨ byte = space
    · rw [if_pos hstop] at hscan
      cases hscan
      exact ⟨byte :: rest, rfl, by rw [scanName, if_pos hstop]⟩
    · rw [if_neg hstop] at hscan
      split_ifs at hscan
      obtain ⟨⟨name, capacity', left⟩, hrest, heq⟩ := Option.map_eq_some_iff.mp hscan
      cases heq
      obtain ⟨left', rfl, hscanned⟩ := ih hrest
      exact ⟨left', rfl, by rw [scanName, if_neg hstop, hscanned, Option.map_some]⟩

theorem scanExt_of_bounded {capacity j : ℕ} {rest ext : List Byte}
    (hscan : boundedScanExt capacity j (rest ++ [0]) = some ext) : scanExt rest = some ext := by
  induction rest generalizing j ext with
  | nil =>
    have hzero : ¬ (0 : Byte) = space := by decide
    rw [List.nil_append, boundedScanExt, if_neg hzero] at hscan
    split_ifs at hscan
    cases hscan
  | cons byte rest ih =>
    rw [List.cons_append, boundedScanExt] at hscan
    by_cases hstop : byte = space
    · rw [if_pos hstop] at hscan
      cases hscan
      rw [scanExt, if_pos hstop]
    · rw [if_neg hstop] at hscan
      split_ifs at hscan
      obtain ⟨ext, hrest, rfl⟩ := Option.map_eq_some_iff.mp hscan
      rw [scanExt, if_neg hstop, ih hrest, Option.map_some]

theorem parseNameAfterMark_of_bounded {rest : List Byte} {outcome : NameOutcome}
    (hzero : (0 : Byte) ∉ rest) (hparse : boundedAfterMark (rest ++ [0]) = some outcome) :
    parseNameAfterMark rest = some outcome := by
  obtain ⟨⟨name, capacity, left⟩, hname, hparse⟩ := Option.bind_eq_some_iff.mp hparse
  obtain ⟨left', rfl, hscan⟩ := scanName_of_bounded hname
  obtain ⟨hsplit, -, -, stop, after, rfl, -⟩ := scanName_spec hscan
  rw [hsplit, List.mem_append, not_or] at hzero
  rw [parseNameAfterMark, hscan, Option.bind_some]
  simp only [List.cons_append, List.head?_cons] at hparse ⊢
  by_cases hblank : some stop = some space
  · simp only [hblank, if_true] at hparse ⊢
    exact hparse
  · simp only [hblank, if_false] at hparse ⊢
    split_ifs at hparse
    obtain ⟨ext, hext, rfl⟩ := Option.map_eq_some_iff.mp hparse
    have hscanned : scanExt (stop :: after) = some ext := scanExt_of_bounded hext
    obtain ⟨-, behind, hleft⟩ := scanExt_spec hscanned
    have hextZero : (0 : Byte) ∉ ext.take 4 := by
      intro hmem
      rw [hleft] at hzero
      exact hzero.2 (List.mem_append_left _ (List.mem_of_mem_take hmem))
    rw [hscanned, Option.map_some, untilNul_of_notMem hzero.1, untilNul_of_notMem hextZero]

/-- Within the bounds `parse_name` is the function of `RequestLine`. -/
theorem parseName_of_bounded {line : List Byte} {outcome : NameOutcome}
    (hzero : (0 : Byte) ∉ line) (hparse : boundedParseName line = some outcome) :
    parseName line = some outcome := by
  have hloop : ∀ rest, (0 : Byte) ∉ rest → boundedParseLoop line rest = some outcome →
      parseNameLoop line rest = some outcome := by
    intro rest hrest
    induction rest with
    | nil => exact id
    | cons byte rest ih =>
      intro hparse
      rw [List.mem_cons, not_or] at hrest
      rw [boundedParseLoop] at hparse
      rw [parseNameLoop, if_neg (Ne.symm hrest.1)]
      by_cases hslash : byte = slash
      · rw [if_pos hslash] at hparse ⊢
        cases rest with
        | nil => exact hparse
        | cons next rest =>
          rw [List.cons_append, boundedAtSlash] at hparse
          rw [parseNameAtSlash]
          split_ifs at hparse ⊢
          · rw [List.mem_cons, not_or] at hrest
            exact parseNameAfterMark_of_bounded hrest.2.2 hparse
          · exact hparse
          · exact hparse
      · rw [if_neg hslash] at hparse ⊢
        exact ih hrest.2 hparse
  exact hloop line hzero hparse

end ImageApp.Server
