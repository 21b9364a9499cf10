import ImageApp.Foundations.DecimalPrefixes
import ImageApp.Server.MessageBuffer

/-!
# The text of a header

What `build_message` writes into the 512 bytes of a caller is to be one header block with its NUL,
and one of its fields is to be the content length as a decimal numeral. It is both for every size
but zero, which `convert_long_to_string` prints as the empty string, `buildsHeader_iff`. An image
whose file is empty is announced with an empty field, `not_buildsHeader`.
-/

set_option autoImplicit false
set_option relaxedAutoImplicit false

namespace ImageApp.Responses

open Foundations.CStrings Foundations.DecimalPrefixes Foundations.DecimalRows
open Foundations.HeaderBlocks Server

/-- The value of a line with the content length. -/
def contentLength (line : List Byte) : Option (List Byte) :=
  fieldValue (bytes "Content-Length") line

/-- The lines of a header that announces a body of some size: they can be told apart, and there is
one content length, which is a numeral for the size. -/
structure Announces (lines : List (List Byte)) (fileSize : ℕ) : Prop where
  lines_ne_nil : lines ≠ []
  isLine : ∀ line ∈ lines, IsLine line ∧ (10 : Byte) ∉ line
  length : ∃ digits, lines.filterMap contentLength = [digits] ∧ digits ≠ [] ∧
    (∀ byte ∈ digits, isDigit byte) ∧ digitsValue digits = fileSize

/-- `build_message` leaves a header for the size as the string in a buffer of 512 bytes, and returns
its length. -/
def BuildsHeader (fileSize : ℕ) (image : Bool) (msgError : List Byte) : Prop :=
  ∀ msg, msg.length = 512 → ∃ msg' lines,
    buildMessageInto fileSize image msgError msg = some (msg', (headerBlock lines).length) ∧
      msg'.length = 512 ∧ cstring msg' = some (headerBlock lines) ∧ Announces lines fileSize

/-- The line with the content length. -/
def lengthLine (fileSize : ℕ) : List Byte :=
  bytes "Content-Length: " ++ numeral fileSize

/-- The other lines of a header: they have no content length, and leave 20 bytes for its digits and
the NUL. -/
structure IsFrame (front behind : List (List Byte)) : Prop where
  isLine : ∀ line ∈ front ++ behind,
    IsLine line ∧ (10 : Byte) ∉ line ∧ (0 : Byte) ∉ line ∧ contentLength line = none
  room : (headerBlock (front ++ lengthLine 0 :: behind)).length + 20 ≤ 512

variable {front behind : List (List Byte)} {fileSize : ℕ} {image : Bool} {msgError : List Byte}

theorem contentLength_lengthLine (fileSize : ℕ) :
    contentLength (lengthLine fileSize) = some (numeral fileSize) := by
  have hsplit : lengthLine fileSize = bytes "Content-Length" ++ 58 :: 32 :: numeral fileSize := rfl
  rw [hsplit, contentLength]
  exact fieldValue_append (by decide) (notMem_numeral (Or.inl (by decide)) fileSize)

/-- The only content length is that of its line. -/
theorem filterMap_contentLength (hframe : IsFrame front behind) :
    (front ++ lengthLine fileSize :: behind).filterMap contentLength = [numeral fileSize] := by
  have hnone : ∀ {lines : List (List Byte)}, (∀ line ∈ lines, contentLength line = none) →
      lines.filterMap contentLength = [] := List.filterMap_eq_nil_iff.mpr
  have hfront := hnone fun line hline ↦
    (hframe.isLine line (List.mem_append_left behind hline)).2.2.2
  have hbehind := hnone fun line hline ↦
    (hframe.isLine line (List.mem_append_right front hline)).2.2.2
  rw [List.filterMap_append, hfront, List.filterMap_cons, contentLength_lengthLine, hbehind]
  rfl

/-- A byte that is not in the text in front of the digits is not in the line. -/
theorem notMem_lengthLine {byte : Byte} (hfront : byte ∉ bytes "Content-Length: ")
    (hbyte : byte.toNat < 48) : byte ∉ lengthLine fileSize := by
  rw [lengthLine, List.mem_append, not_or]
  exact ⟨hfront, notMem_numeral (Or.inl hbyte) fileSize⟩

/-- The lines of a header are lines, without LF and NUL. -/
theorem isLine_of_frame (hframe : IsFrame front behind) :
    ∀ line ∈ front ++ lengthLine fileSize :: behind,
      IsLine line ∧ (10 : Byte) ∉ line ∧ (0 : Byte) ∉ line := by
  intro line hline
  rcases List.mem_append.mp hline with hfront | hrest
  · obtain ⟨hisLine, hfeed, hnul, -⟩ := hframe.isLine line (List.mem_append_left behind hfront)
    exact ⟨hisLine, hfeed, hnul⟩
  · rcases List.mem_cons.mp hrest with rfl | hbehind
    · refine ⟨isLine_append_numeral (by decide) fileSize, ?_, ?_⟩
      · exact notMem_lengthLine (by decide) (by decide)
      · exact notMem_lengthLine (by decide) (by decide)
    · obtain ⟨hisLine, hfeed, hnul, -⟩ := hframe.isLine line (List.mem_append_right front hbehind)
      exact ⟨hisLine, hfeed, hnul⟩

/-- The digits of a size are what makes its header longer than the one without digits. -/
theorem length_headerBlock_frame :
    (headerBlock (front ++ lengthLine fileSize :: behind)).length =
      (headerBlock (front ++ lengthLine 0 :: behind)).length + digitCount fileSize := by
  simp only [headerBlock, lengthLine, List.flatMap_append, List.flatMap_cons, List.length_append,
    length_numeral, numeral_zero, List.length_nil]
  omega

/-- The lines of a frame are those of a header for a size that is not zero. -/
theorem announces_frame_iff (hframe : IsFrame front behind) :
    Announces (front ++ lengthLine fileSize :: behind) fileSize ↔ fileSize ≠ 0 := by
  constructor
  · rintro hannounces rfl
    obtain ⟨digits, hlength, hdigits, -⟩ := hannounces.length
    rw [filterMap_contentLength hframe, numeral_zero, List.singleton_inj] at hlength
    exact hdigits hlength.symm
  · intro hsize
    have hdigits : numeral fileSize ≠ [] := by
      rw [numeral_of_pos (Nat.pos_of_ne_zero hsize)]
      exact List.append_ne_nil_of_right_ne_nil _ (List.cons_ne_nil _ _)
    refine ⟨List.append_ne_nil_of_right_ne_nil _ (List.cons_ne_nil _ _), fun line hline ↦ ?_, ?_⟩
    · obtain ⟨hisLine, hfeed, -⟩ := isLine_of_frame hframe line hline
      exact ⟨hisLine, hfeed⟩
    · exact ⟨numeral fileSize, filterMap_contentLength hframe, hdigits,
        fun byte hbyte ↦ isDigit_of_mem_numeral hbyte, digitsValue_numeral fileSize⟩

/-- A block of lines without NUL has no NUL. -/
theorem zero_notMem_headerBlock {lines : List (List Byte)}
    (hlines : ∀ line ∈ lines, (0 : Byte) ∉ line) : (0 : Byte) ∉ headerBlock lines := by
  have hend : (0 : Byte) ∉ crlf := by decide
  rw [headerBlock, List.mem_append, List.mem_flatMap, not_or, not_exists]
  refine ⟨?_, hend⟩
  rintro line ⟨hline, hmem⟩
  exact (List.mem_append.mp hmem).elim (hlines line hline) hend

/-- `build_message` builds a header out of the lines of a frame for every size but zero. -/
theorem buildsHeader_iff_of_frame (hframe : IsFrame front behind) (hsize : fileSize < 2 ^ 63)
    (hmessage : buildMessage fileSize image msgError =
      headerBlock (front ++ lengthLine fileSize :: behind)) :
    BuildsHeader fileSize image msgError ↔ fileSize ≠ 0 := by
  have hisLine := @isLine_of_frame front behind fileSize hframe
  have hnul := zero_notMem_headerBlock fun line hline ↦ (hisLine line hline).2.2
  have hdigits : digitCount fileSize ≤ 19 :=
    (Nat.digits_length_le_iff (by decide) fileSize).mpr (hsize.trans (by norm_num))
  have hroom : (buildMessage fileSize image msgError).length < 512 := by
    have hframeRoom := hframe.room
    rw [hmessage, length_headerBlock_frame]
    omega
  have hwritten := fun (msg : List Byte) (hmsg : msg.length = 512) ↦
    @buildMessageInto_eq fileSize image msgError msg (hmsg ▸ hroom)
  rw [hmessage] at hwritten hroom
  rw [← announces_frame_iff hframe]
  constructor
  · intro hbuilds
    obtain ⟨msg', lines, hrun, -, htext, hannounces⟩ := hbuilds (zeros 512) (length_zeros 512)
    rw [hwritten (zeros 512) (length_zeros 512), Option.some.injEq, Prod.mk.injEq] at hrun
    rw [← hrun.1, cstring_append_zero hnul, Option.some.injEq] at htext
    have hlines := eq_of_headerBlock_eq (fun line hline ↦ (hisLine line hline).1)
      (fun line hline ↦ (hannounces.isLine line hline).1) htext
    rw [hlines]
    exact hannounces
  · intro hannounces msg hmsg
    refine ⟨_, _, hwritten msg hmsg, ?_, cstring_append_zero hnul _, hannounces⟩
    rw [List.length_append, List.length_cons, List.length_drop, hmsg]
    omega

/-- The lines of an image around the content length. -/
theorem isFrame_image :
    IsFrame ((imageLines 0).take 4) [bytes "Keep-Alive: timeout=5, max=10"] :=
  ⟨by decide, by decide +kernel⟩

/-- The lines of a page around the content length. -/
theorem isFrame_page : IsFrame ((pageLines 0).take 3) [bytes "Connection: Closed"] :=
  ⟨by decide, by decide⟩

/-- For an image, or a page and its length, `build_message` builds a header if and only if the size
is not zero. -/
theorem buildsHeader_iff (hsize : fileSize < 2 ^ 63)
    (hcaller : image = true ∨ fileSize = (untilNul msgError).length + 1) :
    BuildsHeader fileSize image msgError ↔ fileSize ≠ 0 := by
  cases image with
  | true =>
    exact buildsHeader_iff_of_frame isFrame_image hsize (buildMessage_image fileSize msgError)
  | false =>
    obtain rfl : fileSize = (untilNul msgError).length + 1 :=
      hcaller.resolve_left Bool.false_ne_true
    exact buildsHeader_iff_of_frame isFrame_page hsize (buildMessage_page msgError)

/-- The largest size. -/
theorem buildsHeader_max : BuildsHeader (2 ^ 63 - 1) true [] ↔ 2 ^ 63 - 1 ≠ 0 :=
  buildsHeader_iff (by norm_num) (Or.inl rfl)

/-- The length of an empty image is announced by an empty field. -/
theorem not_buildsHeader :
    ¬ ∀ (fileSize : ℕ) (image : Bool) (msgError : List Byte), fileSize < 2 ^ 63 →
      image = true ∨ fileSize = (untilNul msgError).length + 1 →
        BuildsHeader fileSize image msgError := by
  intro hall
  have hbuilds := hall 0 true [] (by norm_num) (Or.inl rfl)
  have hframe := @buildsHeader_iff_of_frame _ _ 0 true [] isFrame_image (by norm_num)
    (buildMessage_image 0 [])
  exact hframe.mp hbuilds rfl

end ImageApp.Responses
