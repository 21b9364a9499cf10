import ImageApp.Server.Config

/-!
# Parsing a received message

The scanners of `Request.c`: `get_command_line`, `parse_command`, `parse_name`, `get_accept_line`,
`get_user_agent` and the part of `parse_request` that combines them. A message is the content of a
message slot. A line is the content of the block that `get_command_line` allocates, without the NUL
that it puts behind it; it may hold other NULs, since the copy ends at a carriage return only. The
outer loop of `parse_name` ends at the first of them, and its inner loops run over them. A result
`none` stands for a read outside the block or the array that the scanner works on, after which the
program has no defined behaviour.

`parseName_spec` says which part of a line an accepted image name and extension are, and
`acceptedName_of_parseName` what they look like: the name is free of dots and blanks, and the
extension is either absent together with the name, or a dot followed by at most three bytes that are
not blanks. Neither holds a NUL.

The work buffers of `parse_name` have fixed sizes, and an overlong name or extension is written past
them. The model keeps the text that the function reads back: the name, and the extension cut to four
bytes, both up to their first NUL. `nameBuffer` and `extBuffer` are the buffers themselves, and
`nameBuffer_spec` and `extBuffer_spec` say that this text is what they hold when nothing is written
past them.
-/

set_option autoImplicit false
set_option relaxedAutoImplicit false

namespace ImageApp.Server

open Foundations.CStrings

/-! ### The first line -/

/-- The bytes before the first carriage return, `none` when there is no carriage return. -/
def upToReturn : List Byte → Option (List Byte)
  | [] => none
  | byte :: rest =>
    if byte = carriageReturn then some [] else (upToReturn rest).map (byte :: ·)

/-- `get_command_line`: the first line of the message, with the NULs it may hold. -/
def getCommandLine (message : List Byte) : Option (List Byte) :=
  upToReturn message

/-- `parse_command` on the string that the line starts with: the first method name met at any
offset. -/
def parseCommand : List Byte → RqstStat
  | [] => .messageNotCorrect
  | byte :: rest =>
    if bytes "GET" <+: byte :: rest then .getCmd
    else if bytes "HEAD" <+: byte :: rest then .headCmd
    else parseCommand rest

/-! ### The image name -/

/-- What `parse_name` returns, with the strings it sets. -/
inductive NameOutcome
  | imageRequested (imageName ext : List Byte)
  | messageNotCorrect
  | emptyPath
  | iconRequested
  deriving DecidableEq, Repr

/-- The first inner loop of `parse_name`: the bytes before the next `'.'` or `' '`, and the line
from that byte on. -/
def scanName : List Byte → Option (List Byte × List Byte)
  | [] => none
  | byte :: rest =>
    if byte = dot ∨ byte = space then some ([], byte :: rest)
    else (scanName rest).map fun scanned ↦ (byte :: scanned.1, scanned.2)

/-- The second inner loop of `parse_name`: the bytes before the next `' '`. -/
def scanExt : List Byte → Option (List Byte)
  | [] => none
  | byte :: rest => if byte = space then some [] else (scanExt rest).map (byte :: ·)

/-- The work buffer `p` of `parse_name` when `j` bytes have been written: it is enlarged once, when
the bytes allocated first are used up, and `fresh` is what the enlarged part holds. -/
def growName (fresh : Fin imageNamePreallocation → Byte) (p : List Byte) (j : ℕ) : List Byte :=
  if j = imageNamePreallocation then p ++ List.ofFn fresh else p

/-- The writes of the first inner loop to the work buffer `p`, from index `j` on, and the NUL behind
the name. A write outside the buffer gives `none`. -/
def writeName (fresh : Fin imageNamePreallocation → Byte) (p : List Byte) (j : ℕ) :
    List Byte → Option (List Byte)
  | [] => if j < p.length then some (p.set j 0) else none
  | byte :: rest =>
    if j < p.length then writeName fresh (growName fresh (p.set j byte) (j + 1)) (j + 1) rest
    else none

/-- The work buffer `p` of `parse_name` when the name is complete. -/
def nameBuffer (fresh : Fin imageNamePreallocation → Byte) (name : List Byte) :
    Option (List Byte) :=
  writeName fresh (zeros imageNamePreallocation) 0 name

/-- The writes of the second inner loop to the work buffer `e`, from index `j` on, and the NUL at
index 4. A write outside the buffer gives `none`. -/
def writeExt (e : List Byte) (j : ℕ) : List Byte → Option (List Byte)
  | [] => some (e.set 4 0)
  | byte :: rest => if j < e.length then writeExt (e.set j byte) (j + 1) rest else none

/-- The work buffer `e` of `parse_name` when the extension is complete. -/
def extBuffer (ext : List Byte) : Option (List Byte) :=
  writeExt (zeros 5) 0 ext

/-- The branch of `parse_name` after `"/?"`. Both work buffers are read back with `strlen`. -/
def parseNameAfterMark (rest : List Byte) : Option NameOutcome :=
  (scanName rest).bind fun scanned ↦
    if scanned.2.head? = some space then some .messageNotCorrect
    else (scanExt scanned.2).map fun ext ↦
      .imageRequested (untilNul scanned.1) (untilNul (ext.take 4))

/-- The branch of `parse_name` for a `'/'` that starts neither `"/?"` nor `"/ "`: the string that
the line starts with is searched for the icon. -/
def parseNameIcon (line : List Byte) : NameOutcome :=
  if (strstr (untilNul line) (bytes "favicon")).isSome then .iconRequested else .messageNotCorrect

/-- The branches of `parse_name` at a `'/'`, on what follows it; the line may end there. -/
def parseNameAtSlash (line : List Byte) : List Byte → Option NameOutcome
  | [] => some (parseNameIcon line)
  | next :: rest =>
    if next = questionMark then parseNameAfterMark rest
    else if next = space then some .emptyPath
    else some (parseNameIcon line)

/-- The loop of `parse_name` over `line`, from the offset at which `rest` is left. It ends at the
first NUL; a line without `'/'` before it leaves the loop there with both work buffers empty. -/
def parseNameLoop (line : List Byte) : List Byte → Option NameOutcome
  | [] => some (.imageRequested [] [])
  | byte :: rest =>
    if byte = 0 then some (.imageRequested [] [])
    else if byte = slash then parseNameAtSlash line rest
    else parseNameLoop line rest

/-- `parse_name`. -/
def parseName (line : List Byte) : Option NameOutcome :=
  parseNameLoop line line

/-! ### The headers -/

/-- `get_accept_line`: 128 bytes are copied from the first `"Accept: "`, and the value ends at a
carriage return or at the end of that copy. -/
def getAcceptLine (message : List Byte) : Option (List Byte) :=
  (cstring message).bind fun text ↦
    (strstr text (bytes "Accept: ")).bind fun offset ↦
      if offset + 128 ≤ message.length then
        let tmp := ((message.drop offset).take 128).set 127 0
        some (untilNul ((tmp.drop 8).takeWhile (· ≠ carriageReturn)))
      else none

/-- `get_user_agent`: 256 bytes are copied from the first `"User-Agent: "`, and the value ends at a
carriage return, which the loop does not leave the copy to find. -/
def getUserAgent (message : List Byte) : Option (List Byte) :=
  (cstring message).bind fun text ↦
    (strstr text (bytes "User-Agent: ")).bind fun offset ↦
      if offset + 256 ≤ message.length then
        let tmp := ((message.drop offset).take 256).set 255 0
        (upToReturn (tmp.drop 12)).map untilNul
      else none

/-! ### The request -/

/-- The fields that `parse_request` sets from the message alone. `acceptLine` is the text on which
it calls `get_list_accept_image`. An absent field is one that the taken path leaves zero. -/
structure ParsedRequest where
  cmd : RqstStat
  imageName : List Byte
  imageNameStorage : Storage
  ext : Option (List Byte)
  acceptLine : Option (List Byte)
  userAgent : Option (List Byte)
  deriving DecidableEq, Repr

/-- `parse_request`, with its return code. -/
def parseRequest (message : List Byte) : Option (RqstStat × ParsedRequest) :=
  (getCommandLine message).bind fun firstLine ↦
    let cmd := parseCommand (untilNul firstLine)
    (parseName firstLine).bind fun
      | .iconRequested | .emptyPath =>
        some (.iconRequested, ⟨cmd, iconName, .literal, none, none, none⟩)
      | .messageNotCorrect =>
        some (.messageNotCorrect, ⟨cmd, [], .literal, none, none, none⟩)
      | .imageRequested imageName ext =>
        (getAcceptLine message).bind fun acceptLine ↦
          (getUserAgent message).map fun userAgent ↦
            (.requestReceived,
              ⟨cmd, imageName, .heap, some ext, some acceptLine, some userAgent⟩)

/-- What `parse_request` returns: the method is the one of the first line, and the result is one of
three. -/
theorem parseRequest_cases {message : List Byte} {ret : RqstStat} {request : ParsedRequest}
    (hparse : parseRequest message = some (ret, request)) :
    ∃ firstLine, getCommandLine message = some firstLine ∧
      request.cmd = parseCommand (untilNul firstLine) ∧
      (ret = .requestReceived ∨ ret = .iconRequested ∨ ret = .messageNotCorrect) := by
  obtain ⟨firstLine, hline, hparse⟩ := Option.bind_eq_some_iff.mp hparse
  obtain ⟨name, -, hparse⟩ := Option.bind_eq_some_iff.mp hparse
  refine ⟨firstLine, hline, ?_⟩
  cases name with
  | imageRequested imageName ext =>
    obtain ⟨acceptLine, -, hparse⟩ := Option.bind_eq_some_iff.mp hparse
    obtain ⟨userAgent, -, hparse⟩ := Option.map_eq_some_iff.mp hparse
    rw [Prod.mk.injEq] at hparse
    exact ⟨hparse.2 ▸ rfl, Or.inl hparse.1.symm⟩
  | messageNotCorrect =>
    rw [Option.some.injEq, Prod.mk.injEq] at hparse
    exact ⟨hparse.2 ▸ rfl, Or.inr (Or.inr hparse.1.symm)⟩
  | emptyPath | iconRequested =>
    rw [Option.some.injEq, Prod.mk.injEq] at hparse
    exact ⟨hparse.2 ▸ rfl, Or.inr (Or.inl hparse.1.symm)⟩

/-! ### The scanners on their own formats -/

/-- The first line ends at the first carriage return. -/
theorem upToReturn_append {text : List Byte} (htext : carriageReturn ∉ text) (rest : List Byte) :
    upToReturn (text ++ carriageReturn :: rest) = some text := by
  induction text with
  | nil => rfl
  | cons byte text ih =>
    rw [List.mem_cons, not_or] at htext
    rw [List.cons_append, upToReturn, if_neg (Ne.symm htext.1), ih htext.2, Option.map_some]

/-- The first inner loop copies text without dots and blanks that is followed by one of these. -/
theorem scanName_append {name : List Byte} (hdot : dot ∉ name) (hspace : space ∉ name) {stop : Byte}
    (hstop : stop = dot ∨ stop = space) (rest : List Byte) :
    scanName (name ++ stop :: rest) = some (name, stop :: rest) := by
  induction name with
  | nil => rw [List.nil_append, scanName, if_pos hstop]
  | cons byte name ih =>
    rw [List.mem_cons, not_or] at hdot hspace
    have hbyte : ¬ (byte = dot ∨ byte = space) :=
      not_or.mpr ⟨Ne.symm hdot.1, Ne.symm hspace.1⟩
    rw [List.cons_append, scanName, if_neg hbyte, ih hdot.2 hspace.2, Option.map_some]

/-- The second inner loop copies text without blanks that is followed by one. -/
theorem scanExt_append {ext : List Byte} (hspace : space ∉ ext) (rest : List Byte) :
    scanExt (ext ++ space :: rest) = some ext := by
  induction ext with
  | nil => rw [List.nil_append, scanExt, if_pos rfl]
  | cons byte ext ih =>
    rw [List.mem_cons, not_or] at hspace
    rw [List.cons_append, scanExt, if_neg (Ne.symm hspace.1), ih hspace.2, Option.map_some]

/-- The first `'/'` of a line, if one comes before the first NUL. -/
theorem exists_slash_of_mem {line : List Byte} (hslash : slash ∈ untilNul line) :
    ∃ front rest, line = front ++ slash :: rest ∧ (0 : Byte) ∉ front ∧ slash ∉ front := by
  obtain ⟨front, behind, hstring, hfront⟩ := List.eq_append_cons_of_mem hslash
  obtain ⟨left, hleft⟩ := prefix_untilNul line
  refine ⟨front, behind ++ left, ?_, fun hmem ↦ zero_notMem_untilNul line ?_, hfront⟩
  · rw [← hleft, hstring, List.append_assoc, List.cons_append]
  · rw [hstring]
    exact List.mem_append_left _ hmem

/-- A `'/'` with no NUL before it is one of the string that the line starts with. -/
theorem slash_mem_untilNul {front : List Byte} (hzero : (0 : Byte) ∉ front) (rest : List Byte) :
    slash ∈ untilNul (front ++ slash :: rest) := by
  rw [untilNul_append hzero, untilNul_cons_of_ne (by decide)]
  simp

/-- `parse_name` looks at what follows the first `'/'` of the line. -/
theorem parseName_append {front : List Byte} (hzero : (0 : Byte) ∉ front) (hfront : slash ∉ front)
    (rest : List Byte) :
    parseName (front ++ slash :: rest) = parseNameAtSlash (front ++ slash :: rest) rest := by
  have hloop : ∀ line,
      parseNameLoop line (front ++ slash :: rest) = parseNameAtSlash line rest := by
    intro line
    induction front with
    | nil => rw [List.nil_append, parseNameLoop, if_neg (by decide), if_pos rfl]
    | cons byte front ih =>
      rw [List.mem_cons, not_or] at hzero hfront
      rw [List.cons_append, parseNameLoop, if_neg (Ne.symm hzero.1), if_neg (Ne.symm hfront.1),
        ih hzero.2 hfront.2]
  exact hloop _

/-- A line without `'/'` before its first NUL is taken for a request with an empty name. -/
theorem parseName_of_notMem {line : List Byte} (hline : slash ∉ untilNul line) :
    parseName line = some (.imageRequested [] []) := by
  have hloop : ∀ rest, slash ∉ untilNul rest →
      parseNameLoop line rest = some (.imageRequested [] []) := by
    intro rest hrest
    induction rest with
    | nil => rfl
    | cons byte rest ih =>
      rw [parseNameLoop]
      by_cases hzero : byte = 0
      · rw [if_pos hzero]
      · rw [untilNul_cons_of_ne hzero, List.mem_cons, not_or] at hrest
        rw [if_neg hzero, if_neg (Ne.symm hrest.1), ih hrest.2]
  exact hloop line hline

/-- After `"/?"` a name, a dot and an extension that a blank ends are read. -/
theorem parseNameAfterMark_append {name tail : List Byte} (hdot : dot ∉ name)
    (hspace : space ∉ name) (htail : space ∉ tail) (rest : List Byte) :
    parseNameAfterMark (name ++ dot :: (tail ++ space :: rest)) =
      some (.imageRequested (untilNul name) (dot :: untilNul (tail.take 3))) := by
  have hext : space ∉ dot :: tail := by
    rw [List.mem_cons, not_or]
    exact ⟨by decide, htail⟩
  have hscan : scanExt (dot :: (tail ++ space :: rest)) = some (dot :: tail) :=
    scanExt_append hext rest
  have hnotBlank : ¬ (dot :: (tail ++ space :: rest)).head? = some space := by
    rw [List.head?_cons, Option.some.injEq]
    decide
  rw [parseNameAfterMark, scanName_append hdot hspace (Or.inl rfl), Option.bind_some,
    if_neg hnotBlank, hscan, Option.map_some, List.take_succ_cons,
    untilNul_cons_of_ne (by decide : dot ≠ 0)]

/-! ### The work buffers -/

/-- What the buffer holds in the course of the first inner loop: the bytes written so far, and as
many more as it was allocated. -/
theorem exists_writeName (fresh : Fin imageNamePreallocation → Byte) {written left name : List Byte}
    (hlength : written.length + left.length = if written.length < imageNamePreallocation then
      imageNamePreallocation else 2 * imageNamePreallocation)
    (hfits : written.length + name.length < 2 * imageNamePreallocation) :
    ∃ behind, writeName fresh (written ++ left) written.length name =
      some (written ++ name ++ 0 :: behind) := by
  induction name generalizing written left with
  | nil =>
    rw [imageNamePreallocation] at hlength hfits
    rw [List.length_nil] at hfits
    cases left with
    | nil =>
      rw [List.length_nil] at hlength
      split_ifs at hlength <;> omega
    | cons next left =>
      have hroom : written.length < (written ++ next :: left).length := by simp
      rw [writeName, if_pos hroom, List.set_append_right _ _ le_rfl, Nat.sub_self,
        List.set_cons_zero, List.append_nil]
      exact ⟨left, rfl⟩
  | cons byte name ih =>
    rw [imageNamePreallocation] at hlength hfits
    rw [List.length_cons] at hfits
    cases left with
    | nil =>
      rw [List.length_nil] at hlength
      split_ifs at hlength <;> omega
    | cons next left =>
      have hroom : written.length < (written ++ next :: left).length := by simp
      have hset : (written ++ next :: left).set written.length byte =
          (written ++ [byte]) ++ left := by
        rw [List.set_append_right _ _ le_rfl, Nat.sub_self, List.set_cons_zero, List.append_assoc,
          List.singleton_append]
      have hcount : written.length + 1 = (written ++ [byte]).length := by simp
      have hname : written ++ byte :: name = (written ++ [byte]) ++ name := by simp
      rw [writeName, if_pos hroom, hset, hname, growName]
      rw [List.length_cons] at hlength
      split_ifs with hgrow
      · -- The 64th byte was written, and the buffer is enlarged.
        rw [List.append_assoc, hcount]
        rw [imageNamePreallocation] at hgrow
        have hgrown : (left ++ List.ofFn fresh).length = left.length + 64 := by
          rw [List.length_append, List.length_ofFn, imageNamePreallocation]
        refine ih ?_ (by rw [imageNamePreallocation, ← hcount]; omega)
        rw [hgrown, ← hcount, imageNamePreallocation]
        split_ifs at hlength ⊢ <;> omega
      · rw [hcount]
        rw [imageNamePreallocation] at hgrow
        refine ih ?_ (by rw [imageNamePreallocation, ← hcount]; omega)
        rw [← hcount, imageNamePreallocation]
        split_ifs at hlength ⊢ <;> omega

/-- The buffer of a name of at most 127 bytes holds the name, up to its first NUL. -/
theorem nameBuffer_spec (fresh : Fin imageNamePreallocation → Byte) {name : List Byte}
    (hlength : name.length ≤ 127) :
    (nameBuffer fresh name).bind cstring = some (untilNul name) := by
  obtain ⟨behind, hwrite⟩ := @exists_writeName fresh [] (zeros imageNamePreallocation) name
    (by rw [length_zeros]; decide) (by rw [imageNamePreallocation, List.length_nil]; omega)
  have hbuffer : nameBuffer fresh name = some (name ++ 0 :: behind) := hwrite
  rw [hbuffer, Option.bind_some, cstring_append_zero_eq_untilNul]

/-- What the buffer holds in the course of the second inner loop. -/
theorem writeExt_append {written left ext : List Byte} (hfits : ext.length ≤ left.length) :
    writeExt (written ++ left) written.length ext =
      some ((written ++ ext ++ left.drop ext.length).set 4 0) := by
  induction ext generalizing written left with
  | nil => simp [writeExt]
  | cons byte ext ih =>
    cases left with
    | nil => simp at hfits
    | cons next left =>
      have hroom : written.length < (written ++ next :: left).length := by simp
      have hset : (written ++ next :: left).set written.length byte =
          (written ++ [byte]) ++ left := by
        rw [List.set_append_right _ _ le_rfl, Nat.sub_self, List.set_cons_zero, List.append_assoc,
          List.singleton_append]
      have hcount : written.length + 1 = (written ++ [byte]).length := by simp
      rw [List.length_cons, List.length_cons, Nat.succ_le_succ_iff] at hfits
      rw [writeExt, if_pos hroom, hset, hcount, ih hfits]
      simp

/-- The buffer of an extension of at most five bytes, the dot included, holds its first four, up to
the first NUL among them. -/
theorem extBuffer_spec {ext : List Byte} (hlength : ext.length ≤ 5) :
    (extBuffer ext).bind cstring = some (untilNul (ext.take 4)) := by
  have hbuffer : extBuffer ext = some ((ext ++ (zeros 5).drop ext.length).set 4 0) :=
    @writeExt_append [] (zeros 5) ext (by rw [length_zeros]; exact hlength)
  rw [hbuffer, Option.bind_some, zeros, List.drop_replicate]
  by_cases hfull : ext.length = 5
  · rw [hfull, Nat.sub_self, List.replicate_zero, List.append_nil,
      List.set_eq_take_append_cons_drop, if_pos (by omega), cstring_append_zero_eq_untilNul]
  · obtain ⟨room, hroom⟩ : ∃ room, 5 - ext.length = room + 1 := ⟨4 - ext.length, by omega⟩
    rw [List.set_append_right _ _ (by omega), List.set_replicate_self, hroom, List.replicate_succ,
      cstring_append_zero_eq_untilNul, List.take_of_length_le (by omega)]

/-! ### What an accepted name looks like -/

/-- The first inner loop copies the line up to the first dot or blank. -/
theorem scanName_spec {rest name left : List Byte} (hscan : scanName rest = some (name, left)) :
    rest = name ++ left ∧ dot ∉ name ∧ space ∉ name ∧
      ∃ stop after, left = stop :: after ∧ (stop = dot ∨ stop = space) := by
  induction rest generalizing name with
  | nil => simp [scanName] at hscan
  | cons byte rest ih =>
    simp only [scanName] at hscan
    split_ifs at hscan with hstop
    · simp only [Option.some.injEq, Prod.mk.injEq] at hscan
      obtain ⟨rfl, rfl⟩ := hscan
      exact ⟨rfl, List.not_mem_nil, List.not_mem_nil, byte, rest, rfl, hstop⟩
    · obtain ⟨⟨name', left'⟩, hrest, heq⟩ := Option.map_eq_some_iff.mp hscan
      simp only [Prod.mk.injEq] at heq
      obtain ⟨rfl, rfl⟩ := heq
      obtain ⟨hsplit, hdot, hspace, hleft⟩ := ih hrest
      rw [not_or] at hstop
      refine ⟨by rw [hsplit, List.cons_append], ?_, ?_, hleft⟩
      · rw [List.mem_cons, not_or]
        exact ⟨Ne.symm hstop.1, hdot⟩
      · rw [List.mem_cons, not_or]
        exact ⟨Ne.symm hstop.2, hspace⟩

/-- The second inner loop copies the line up to the first blank. -/
theorem scanExt_spec {rest ext : List Byte} (hscan : scanExt rest = some ext) :
    space ∉ ext ∧ ∃ after, rest = ext ++ space :: after := by
  induction rest generalizing ext with
  | nil => simp [scanExt] at hscan
  | cons byte rest ih =>
    simp only [scanExt] at hscan
    split_ifs at hscan with hstop
    · rw [Option.some.injEq] at hscan
      rw [← hscan, hstop]
      exact ⟨List.not_mem_nil, rest, rfl⟩
    · obtain ⟨ext', hrest, rfl⟩ := Option.map_eq_some_iff.mp hscan
      obtain ⟨hspace, after, hsplit⟩ := ih hrest
      refine ⟨?_, after, by rw [hsplit, List.cons_append]⟩
      rw [List.mem_cons, not_or]
      exact ⟨Ne.symm hstop, hspace⟩

/-- The text of a line that `parse_name` reads after its first `"/?"`: the name up to the first dot,
the dot, and the rest up to the first blank, of which three bytes are kept. Both are cut at their
first NUL. -/
def TargetText (imageName ext text : List Byte) : Prop :=
  ∃ name tail after, text = name ++ dot :: (tail ++ space :: after) ∧ dot ∉ name ∧ space ∉ name ∧
    space ∉ tail ∧ imageName = untilNul name ∧ ext = dot :: untilNul (tail.take 3)

/-- After `"/?"` an accepted name and extension are read off the text as `TargetText` says. -/
theorem parseNameAfterMark_spec {rest imageName ext : List Byte}
    (hparse : parseNameAfterMark rest = some (.imageRequested imageName ext)) :
    TargetText imageName ext rest := by
  simp only [parseNameAfterMark, Option.bind_eq_some_iff] at hparse
  obtain ⟨⟨name, left⟩, hname, hparse⟩ := hparse
  obtain ⟨hsplit, hdot, hspace, stop, after, rfl, hstop⟩ := scanName_spec hname
  simp only [List.head?_cons, Option.some.injEq] at hparse
  split_ifs at hparse with hblank
  · simp at hparse
  · obtain ⟨scanned, hext, heq⟩ := Option.map_eq_some_iff.mp hparse
    simp only [NameOutcome.imageRequested.injEq] at heq
    obtain ⟨rfl, rfl⟩ := heq
    have hstopDot : stop = dot := hstop.resolve_right hblank
    obtain ⟨hblankFree, after', hcut⟩ := scanExt_spec hext
    -- The scan starts at the dot, so the dot is the first byte it copies.
    cases scanned with
    | nil =>
      rw [List.nil_append, List.cons.injEq] at hcut
      exact absurd hcut.1 hblank
    | cons first tail =>
      rw [List.cons_append, List.cons.injEq] at hcut
      obtain ⟨hfirst, htail⟩ := hcut
      rw [← hfirst, hstopDot]
      refine ⟨name, tail, after', ?_, hdot, hspace, ?_, rfl, ?_⟩
      · rw [hsplit, hstopDot, htail]
      · exact fun hmem ↦ hblankFree (List.mem_cons_of_mem _ hmem)
      · rw [List.take_succ_cons, untilNul_cons_of_ne (by decide)]

/-- The branch for the icon accepts no image name. -/
theorem parseNameIcon_ne (line imageName ext : List Byte) :
    parseNameIcon line ≠ .imageRequested imageName ext := by
  unfold parseNameIcon
  split_ifs <;> simp

/-- An accepted line either has no `'/'` before its first NUL, and name and extension are empty, or
they are read off the text after its first `'/'`, which is followed by `'?'`. -/
theorem parseName_spec {line imageName ext : List Byte}
    (hparse : parseName line = some (.imageRequested imageName ext)) :
    (slash ∉ untilNul line ∧ imageName = [] ∧ ext = []) ∨
      ∃ front text, line = front ++ slash :: questionMark :: text ∧ (0 : Byte) ∉ front ∧
        slash ∉ front ∧ TargetText imageName ext text := by
  by_cases hslash : slash ∈ untilNul line
  · obtain ⟨front, rest, rfl, hzero, hfront⟩ := exists_slash_of_mem hslash
    rw [parseName_append hzero hfront] at hparse
    cases rest with
    | nil => exact absurd (Option.some.inj hparse) (parseNameIcon_ne _ imageName ext)
    | cons next rest =>
      simp only [parseNameAtSlash] at hparse
      split_ifs at hparse with hmark hblank
      · subst hmark
        exact Or.inr ⟨front, rest, rfl, hzero, hfront, parseNameAfterMark_spec hparse⟩
      · simp at hparse
      · exact absurd (Option.some.inj hparse) (parseNameIcon_ne _ imageName ext)
  · rw [parseName_of_notMem hslash] at hparse
    simp only [Option.some.injEq, NameOutcome.imageRequested.injEq] at hparse
    exact Or.inl ⟨hslash, hparse.1.symm, hparse.2.symm⟩

/-- The shape of an image name and an extension that `parse_name` accepts. -/
structure AcceptedName (imageName ext : List Byte) : Prop where
  dot_notMem : dot ∉ imageName
  space_notMem : space ∉ imageName
  zero_notMem : (0 : Byte) ∉ imageName
  ext_cases : (imageName = [] ∧ ext = []) ∨
    ∃ tail, ext = dot :: tail ∧ tail.length ≤ 3 ∧ space ∉ tail ∧ (0 : Byte) ∉ tail

/-- Every image name and extension that `parse_name` accepts has the shape of `AcceptedName`. -/
theorem acceptedName_of_parseName {line imageName ext : List Byte}
    (hparse : parseName line = some (.imageRequested imageName ext)) :
    AcceptedName imageName ext := by
  rcases parseName_spec hparse with ⟨-, rfl, rfl⟩ | ⟨front, text, -, -, -, htext⟩
  · exact ⟨List.not_mem_nil, List.not_mem_nil, List.not_mem_nil, Or.inl ⟨rfl, rfl⟩⟩
  · obtain ⟨name, tail, after, -, hdot, hspace, hblankFree, rfl, hext⟩ := htext
    refine ⟨fun hmem ↦ hdot (mem_of_mem_untilNul hmem),
      fun hmem ↦ hspace (mem_of_mem_untilNul hmem), zero_notMem_untilNul name,
      Or.inr ⟨untilNul (tail.take 3), hext, ?_, ?_, ?_⟩⟩
    · exact (length_untilNul_le _).trans (List.length_take_le 3 tail)
    · exact fun hmem ↦ hblankFree (List.mem_of_mem_take (mem_of_mem_untilNul hmem))
    · exact zero_notMem_untilNul _

/-- An accepted extension holds no NUL. -/
theorem AcceptedName.zero_notMem_ext {imageName ext : List Byte}
    (haccepted : AcceptedName imageName ext) : (0 : Byte) ∉ ext := by
  rcases haccepted.ext_cases with ⟨-, rfl⟩ | ⟨tail, rfl, -, -, htail⟩
  · exact List.not_mem_nil
  · rw [List.mem_cons, not_or]
    exact ⟨by decide, htail⟩

end ImageApp.Server
