import ImageApp.Foundations.DecimalPrefixes
import ImageApp.Foundations.HeaderBlocks

/-!
# Answers one after another

On a connection that is kept, the answers of a server follow each other without anything in between.
A client tells them apart by reading lines up to an empty one and then as many bytes as the content
length says; the answer to a HEAD has no body. `readAnswers` is this client, for the requests that
it has made, of which it knows which were for a HEAD.

`Framed` says of a text that it is an answer with the given body. `readAnswers_flatten` is the round
trip: from answers that are framed, written one after another, the client reads exactly their bodies
and leaves what follows them.
-/

set_option autoImplicit false
set_option relaxedAutoImplicit false

namespace ImageApp.Foundations.HeaderBlocks

open CStrings DecimalPrefixes DecimalRows

/-! ### Reading -/

/-- The first line and what follows its end. -/
def readLine : List Byte → Option (List Byte × List Byte)
  | [] => none
  | [_] => none
  | first :: second :: rest =>
    if first = 13 ∧ second = 10 then some ([], rest)
    else (readLine (second :: rest)).map fun (line, rest) ↦ (first :: line, rest)

/-- The lines up to the first empty one, of which there are less than `fuel`, and what follows. -/
def readBlock : ℕ → List Byte → Option (List (List Byte) × List Byte)
  | 0, _ => none
  | fuel + 1, stream =>
    (readLine stream).bind fun (line, rest) ↦
      if line = [] then some ([], rest)
      else (readBlock fuel rest).map fun (lines, rest) ↦ (line :: lines, rest)

/-- A number, which has at least one digit and nothing else. -/
def readNumber (text : List Byte) : Option ℕ :=
  if !text.isEmpty && text.all isDigit then some (digitsValue text) else none

/-- The content length that the first line with that field has. -/
def bodySize (lines : List (List Byte)) : Option ℕ :=
  (lines.findSome? (fieldValue (bytes "Content-Length"))).bind readNumber

/-- The body of the first answer, and what follows it. -/
def readAnswer (head : Bool) (stream : List Byte) : Option (List Byte × List Byte) :=
  (readBlock stream.length stream).bind fun (lines, rest) ↦
    if head then some ([], rest)
    else
      (bodySize lines).bind fun size ↦
        if size ≤ rest.length then some (rest.take size, rest.drop size) else none

/-- The bodies of the answers to some requests, and what follows the last one. -/
def readAnswers : List Bool → List Byte → Option (List (List Byte) × List Byte)
  | [], stream => some ([], stream)
  | head :: heads, stream =>
    (readAnswer head stream).bind fun (body, rest) ↦
      (readAnswers heads rest).map fun (bodies, rest) ↦ (body :: bodies, rest)

/-! ### Lines and blocks -/

theorem readLine_append {line : List Byte} (hline : (13 : Byte) ∉ line) (rest : List Byte) :
    readLine (line ++ (crlf ++ rest)) = some (line, rest) := by
  induction line with
  | nil => rfl
  | cons byte line ih =>
    rw [List.mem_cons, not_or] at hline
    have hbyte : ∀ second : Byte, ¬ (byte = 13 ∧ second = 10) :=
      fun second heq ↦ hline.1 heq.1.symm
    have hbehind := ih hline.2
    cases htail : line ++ (crlf ++ rest) with
    | nil => simp [crlf] at htail
    | cons second tail =>
      rw [htail] at hbehind
      rw [List.cons_append, htail, readLine, if_neg (hbyte second), hbehind, Option.map_some]

/-- A block of lines is read up to its empty line. -/
theorem readBlock_headerBlock {lines : List (List Byte)} (hlines : ∀ line ∈ lines, IsLine line)
    (rest : List Byte) {fuel : ℕ} (hfuel : lines.length < fuel) :
    readBlock fuel (headerBlock lines ++ rest) = some (lines, rest) := by
  obtain ⟨fuel, rfl⟩ : ∃ less, fuel = less + 1 := ⟨fuel - 1, by omega⟩
  induction lines generalizing fuel with
  | nil =>
    have hempty : headerBlock [] ++ rest = [] ++ (crlf ++ rest) := rfl
    rw [readBlock, hempty, readLine_append List.not_mem_nil, Option.bind_some]
    exact if_pos rfl
  | cons line lines ih =>
    obtain ⟨⟨hne, hreturn⟩, hlater⟩ := List.forall_mem_cons.mp hlines
    have hsplit : headerBlock (line :: lines) ++ rest =
        line ++ (crlf ++ (headerBlock lines ++ rest)) := by
      simp [headerBlock]
    rw [List.length_cons] at hfuel
    obtain ⟨fuel, rfl⟩ : ∃ less, fuel = less + 1 := ⟨fuel - 1, by omega⟩
    rw [readBlock, hsplit, readLine_append hreturn, Option.bind_some]
    dsimp only
    rw [if_neg hne, ih hlater fuel (by omega), Option.map_some]

/-- A block has more bytes than lines. -/
theorem length_lt_length_headerBlock (lines : List (List Byte)) :
    lines.length < (headerBlock lines).length := by
  induction lines with
  | nil => decide
  | cons line lines ih =>
    rw [headerBlock_cons, List.length_append, List.length_cons, List.length_cons, List.length_cons]
    omega

/-! ### Numbers -/

/-- The numeral of a number is read as that number. -/
theorem readNumber_numeral {value : ℕ} (hvalue : value ≠ 0) :
    readNumber (numeral value) = some value := by
  have hne : numeral value ≠ [] := by
    intro hnil
    have hzero : numeral value = numeral 0 := by rw [hnil, numeral_zero]
    exact hvalue (numeral_injective hzero)
  have hdigits : (!(numeral value).isEmpty && (numeral value).all isDigit) = true := by
    rw [Bool.and_eq_true, Bool.not_eq_true', List.isEmpty_eq_false_iff, List.all_eq_true]
    exact ⟨hne, fun byte hbyte ↦ isDigit_of_mem_numeral hbyte⟩
  rw [readNumber, if_pos hdigits, digitsValue_numeral]

/-- The size is read off the line that announces it, behind lines of other fields. -/
theorem bodySize_append {front : List (List Byte)}
    (hfront : ∀ line ∈ front, fieldValue (bytes "Content-Length") line = none)
    (behind : List (List Byte)) {size : ℕ} (hsize : size ≠ 0) :
    bodySize (front ++ (bytes "Content-Length: " ++ numeral size) :: behind) = some size := by
  have hvalue : fieldValue (bytes "Content-Length") (bytes "Content-Length: " ++ numeral size) =
      some (numeral size) :=
    fieldValue_append (by decide) (notMem_numeral (Or.inl (by decide)) size)
  rw [bodySize, List.findSome?_append, List.findSome?_eq_none_iff.mpr hfront, Option.none_or,
    List.findSome?_cons, hvalue]
  exact readNumber_numeral hsize

/-! ### Answers -/

/-- The text is the answer with the given body: its header announces the length of the body, which
follows it, or it is the answer to a HEAD. -/
inductive Framed : Bool → List Byte → List Byte → Prop
  | whole {lines : List (List Byte)} {body : List Byte} (hlines : ∀ line ∈ lines, IsLine line)
    (hsize : bodySize lines = some body.length) : Framed false (headerBlock lines ++ body) body
  | head {lines : List (List Byte)} (hlines : ∀ line ∈ lines, IsLine line) :
    Framed true (headerBlock lines) []

/-- The lines of an answer are read, whatever follows them. -/
theorem readBlock_length {lines : List (List Byte)} (hlines : ∀ line ∈ lines, IsLine line)
    (rest : List Byte) :
    readBlock (headerBlock lines ++ rest).length (headerBlock lines ++ rest) =
      some (lines, rest) := by
  apply readBlock_headerBlock hlines
  have hless := length_lt_length_headerBlock lines
  rw [List.length_append]
  omega

/-- The body of a framed answer is read, whatever follows the answer. -/
theorem Framed.readAnswer {head : Bool} {text body : List Byte} (hframed : Framed head text body)
    (rest : List Byte) : readAnswer head (text ++ rest) = some (body, rest) := by
  cases hframed with
  | head hlines =>
    rw [HeaderBlocks.readAnswer, readBlock_length hlines, Option.bind_some]
    rfl
  | whole hlines hsize =>
    rw [HeaderBlocks.readAnswer, List.append_assoc, readBlock_length hlines, Option.bind_some]
    dsimp only
    rw [if_neg Bool.false_ne_true, hsize, Option.bind_some, if_pos (by simp), List.take_left,
      List.drop_left]

/-- Answers one after another are told apart. -/
theorem readAnswers_flatten {answers : List (Bool × List Byte × List Byte)}
    (hframed : ∀ answer ∈ answers, Framed answer.1 answer.2.1 answer.2.2) (rest : List Byte) :
    readAnswers (answers.map Prod.fst)
        ((answers.map fun answer ↦ answer.2.1).flatten ++ rest) =
      some (answers.map fun answer ↦ answer.2.2, rest) := by
  induction answers with
  | nil => rfl
  | cons answer answers ih =>
    obtain ⟨hfirst, hlater⟩ := List.forall_mem_cons.mp hframed
    rw [List.map_cons, List.map_cons, List.map_cons, List.flatten_cons, List.append_assoc,
      readAnswers, hfirst.readAnswer, Option.bind_some]
    dsimp only
    rw [ih hlater, Option.map_some]

end ImageApp.Foundations.HeaderBlocks
