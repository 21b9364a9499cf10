import ImageApp.Foundations.CStrings

/-!
# Header blocks

The answer of a server is a block of lines, each ended by CR LF, then an empty line, and a body.
`bodyOf` is what a client takes as the body: everything behind the first empty line. A block of
lines that are not empty and hold no CR ends at its own empty line, `bodyOf_headerBlock`, so that
an answer that is such a block has no body. The block determines these lines,
`eq_of_headerBlock_eq`, and `fieldValue` reads a field of a line.
-/

set_option autoImplicit false
set_option relaxedAutoImplicit false

namespace ImageApp.Foundations.HeaderBlocks

open CStrings

/-- The end of a line. -/
def crlf : List Byte := [13, 10]

/-- The lines with their ends, and an empty line. -/
def headerBlock (lines : List (List Byte)) : List Byte :=
  lines.flatMap (· ++ crlf) ++ crlf

/-- What is behind the first empty line, if there is one. -/
def bodyOf (answer : List Byte) : Option (List Byte) :=
  (strstr answer (crlf ++ crlf)).map fun offset ↦ answer.drop (offset + 4)

/-- A line of a block. -/
def IsLine (line : List Byte) : Prop :=
  line ≠ [] ∧ (13 : Byte) ∉ line

instance decidableIsLine (line : List Byte) : Decidable (IsLine line) :=
  inferInstanceAs (Decidable (_ ∧ _))

/-- The body is not changed by a byte at which no empty line begins. -/
theorem bodyOf_cons {byte : Byte} {rest : List Byte} (hbyte : ¬ crlf ++ crlf <+: byte :: rest) :
    bodyOf (byte :: rest) = bodyOf rest := by
  unfold bodyOf
  rw [strstr, if_neg hbyte, Option.map_map]
  rfl

theorem bodyOf_cons_of_ne {byte : Byte} {rest : List Byte} (hbyte : byte ≠ 13) :
    bodyOf (byte :: rest) = bodyOf rest := by
  refine bodyOf_cons fun hhere ↦ hbyte ?_
  exact (List.cons_prefix_cons.mp hhere).1.symm

/-- The body is not changed by a text without CR in front. -/
theorem bodyOf_append {text : List Byte} (htext : (13 : Byte) ∉ text) (rest : List Byte) :
    bodyOf (text ++ rest) = bodyOf rest := by
  induction text with
  | nil => rfl
  | cons byte text ih =>
    rw [List.mem_cons, not_or] at htext
    rw [List.cons_append, bodyOf_cons_of_ne (Ne.symm htext.1), ih htext.2]

/-- The end of a line is not an empty line when another line follows. -/
theorem bodyOf_crlf_append {byte : Byte} (hbyte : byte ≠ 13) (rest : List Byte) :
    bodyOf (crlf ++ byte :: rest) = bodyOf (byte :: rest) := by
  have hnot : ¬ crlf ++ crlf <+: 13 :: 10 :: byte :: rest := by
    intro hhere
    have hthird := (List.cons_prefix_cons.mp (List.cons_prefix_cons.mp hhere).2).2
    exact hbyte (List.cons_prefix_cons.mp hthird).1.symm
  show bodyOf (13 :: 10 :: byte :: rest) = _
  rw [bodyOf_cons hnot, bodyOf_cons_of_ne (by decide)]

/-- An empty line is followed by the body. -/
theorem bodyOf_empty_line (body : List Byte) : bodyOf (crlf ++ (crlf ++ body)) = some body := by
  have hhere : crlf ++ crlf <+: 13 :: 10 :: 13 :: 10 :: body := ⟨body, rfl⟩
  show bodyOf (13 :: 10 :: 13 :: 10 :: body) = _
  unfold bodyOf
  rw [strstr, if_pos hhere]
  rfl

/-- What is behind a block of lines is the body. -/
theorem bodyOf_headerBlock {lines : List (List Byte)} (hne : lines ≠ [])
    (hlines : ∀ line ∈ lines, IsLine line) (body : List Byte) :
    bodyOf (headerBlock lines ++ body) = some body := by
  induction lines with
  | nil => exact absurd rfl hne
  | cons line lines ih =>
    obtain ⟨⟨-, hline⟩, hrest⟩ := List.forall_mem_cons.mp hlines
    have hfirst : headerBlock (line :: lines) ++ body =
        line ++ (crlf ++ (headerBlock lines ++ body)) := by
      simp [headerBlock]
    rw [hfirst, bodyOf_append hline]
    cases lines with
    | nil => exact bodyOf_empty_line body
    | cons next lines =>
      have hbehind := ih (List.cons_ne_nil _ _) hrest
      obtain ⟨hnext, hreturn⟩ := hrest next List.mem_cons_self
      cases next with
      | nil => exact absurd rfl hnext
      | cons byte next =>
        rw [List.mem_cons, not_or] at hreturn
        have hbyte : byte ≠ 13 := Ne.symm hreturn.1
        have hstart : headerBlock ((byte :: next) :: lines) ++ body =
            byte :: (next ++ (crlf ++ (headerBlock lines ++ body))) := by
          simp [headerBlock]
        rw [hstart] at hbehind ⊢
        rw [bodyOf_crlf_append hbyte, hbehind]

theorem headerBlock_cons (line : List Byte) (lines : List (List Byte)) :
    headerBlock (line :: lines) = line ++ 13 :: 10 :: headerBlock lines := by
  simp [headerBlock, crlf]

/-- A block has at least its empty line. -/
theorem two_le_length_headerBlock (lines : List (List Byte)) : 2 ≤ (headerBlock lines).length := by
  rw [headerBlock, List.length_append]
  exact Nat.le_add_left 2 _

/-- A block that begins with a line begins with a byte of it. -/
theorem headerBlock_cons_ne_nil {line : List Byte} (hline : IsLine line)
    (lines : List (List Byte)) : headerBlock (line :: lines) ≠ headerBlock [] := by
  intro heq
  cases line with
  | nil => exact hline.1 rfl
  | cons byte line =>
    rw [headerBlock_cons, List.cons_append] at heq
    have hbyte : byte = 13 := (List.cons.inj heq).1
    exact hline.2 (hbyte ▸ List.mem_cons_self)

/-- A block determines its lines. -/
theorem eq_of_headerBlock_eq {first second : List (List Byte)}
    (hfirst : ∀ line ∈ first, IsLine line) (hsecond : ∀ line ∈ second, IsLine line)
    (heq : headerBlock first = headerBlock second) : first = second := by
  induction first generalizing second with
  | nil =>
    cases second with
    | nil => rfl
    | cons line second =>
      exact absurd heq.symm (headerBlock_cons_ne_nil (hsecond line List.mem_cons_self) second)
  | cons line first ih =>
    obtain ⟨hline, hfirst⟩ := List.forall_mem_cons.mp hfirst
    cases second with
    | nil => exact absurd heq (headerBlock_cons_ne_nil hline first)
    | cons line' second =>
      obtain ⟨hline', hsecond⟩ := List.forall_mem_cons.mp hsecond
      rw [headerBlock_cons, headerBlock_cons] at heq
      have hsame : line = line' := by
        rw [← takeWhile_ne_append_cons hline.2, heq, takeWhile_ne_append_cons hline'.2]
      rw [hsame, List.append_cancel_left_eq, List.cons.injEq, List.cons.injEq] at heq
      rw [hsame, ih hfirst hsecond heq.2.2]

/-! ### Fields -/

/-- A letter in lower case. -/
def lower (byte : Byte) : Byte :=
  if 65 ≤ byte ∧ byte ≤ 90 then byte + 32 else byte

/-- The value that a line has for a field, if the line is one for that field: what is behind the
colon and the spaces that follow it. Capital letters in names make no difference. -/
def fieldValue (name line : List Byte) : Option (List Byte) :=
  if 58 ∈ line ∧ (line.takeWhile (· ≠ 58)).map lower = name.map lower then
    some ((line.dropWhile (· ≠ 58)).tail.dropWhile (· = 32))
  else none

/-- The value of a field that is written with one space. -/
theorem fieldValue_append {name value : List Byte} (hname : (58 : Byte) ∉ name)
    (hvalue : (32 : Byte) ∉ value) : fieldValue name (name ++ 58 :: 32 :: value) = some value := by
  have hhere : 58 ∈ name ++ 58 :: 32 :: value :=
    List.mem_append_right _ List.mem_cons_self
  have hbehind : (name ++ 58 :: 32 :: value).dropWhile (· ≠ 58) = 58 :: 32 :: value := by
    rw [List.dropWhile_append_of_pos, List.dropWhile_cons_of_neg (by simp)]
    intro byte hbyte
    have hne : byte ≠ 58 := fun heq ↦ hname (heq ▸ hbyte)
    simpa using hne
  have hspaces : value.dropWhile (· = 32) = value := by
    cases value with
    | nil => rfl
    | cons byte value =>
      have hbyte : byte ≠ 32 := fun heq ↦ hvalue (heq ▸ List.mem_cons_self)
      exact List.dropWhile_cons_of_neg (by simpa using hbyte)
  rw [fieldValue, takeWhile_ne_append_cons hname, if_pos ⟨hhere, rfl⟩, hbehind, List.tail_cons,
    List.dropWhile_cons_of_pos (by simp), hspaces]

/-! ### Answers without a body -/

/-- The answer is one block of lines and nothing else. -/
def IsHeaderBlock (answer : List Byte) : Prop :=
  ∃ lines, lines ≠ [] ∧ (∀ line ∈ lines, IsLine line) ∧ answer = headerBlock lines

theorem isHeaderBlock_headerBlock {lines : List (List Byte)} (hne : lines ≠ [])
    (hlines : ∀ line ∈ lines, IsLine line) : IsHeaderBlock (headerBlock lines) :=
  ⟨lines, hne, hlines, rfl⟩

/-- A block of lines has no body. -/
theorem IsHeaderBlock.bodyOf_eq {answer : List Byte} (hblock : IsHeaderBlock answer) :
    bodyOf answer = some [] := by
  obtain ⟨lines, hne, hlines, rfl⟩ := hblock
  have hbody := bodyOf_headerBlock hne hlines []
  rwa [List.append_nil] at hbody

end ImageApp.Foundations.HeaderBlocks
