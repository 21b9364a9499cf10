import ImageApp.Foundations.CStrings

/-!
# Reading a file by lines

A stream has the bytes that are left to read, and the indicator that a read has met the end of the
file. `fgets` of `stdio.h` reads bytes until it has a newline or one byte less than the size of its
buffer. A newline that comes early enough ends what is read, `fgets_append`, and the indicator is
not set by the last line of a file but by the attempt to read behind it.
-/

set_option autoImplicit false
set_option relaxedAutoImplicit false

namespace ImageApp.Foundations.LineStreams

open CStrings

/-- The byte `'\n'`. -/
abbrev newline : Byte := 10

/-- A file that is read. -/
structure Stream where
  rest : List Byte
  eof : Bool

/-- Bytes up to a newline, and no more than there is room for. -/
def readLine : ℕ → Stream → List Byte × Stream
  | 0, fp => ([], fp)
  | _ + 1, ⟨[], _⟩ => ([], ⟨[], true⟩)
  | room + 1, ⟨byte :: rest, eof⟩ =>
    if byte = newline then ([byte], ⟨rest, eof⟩)
    else (readLine room ⟨rest, eof⟩).map (byte :: ·) id

/-- `fgets` into a buffer of some size: the bytes in front of the NUL, or `none` when there was
nothing to read. -/
def fgets (size : ℕ) (fp : Stream) : Option (List Byte) × Stream :=
  (readLine (size - 1) fp).map (fun line ↦ if line = [] then none else some line) id

/-- A line is read with its newline. -/
theorem readLine_append {line : List Byte} (hline : newline ∉ line) {room : ℕ}
    (hroom : line.length < room) (rest : List Byte) (eof : Bool) :
    readLine room ⟨line ++ newline :: rest, eof⟩ = (line ++ [newline], ⟨rest, eof⟩) := by
  induction line generalizing room with
  | nil =>
    cases room with
    | zero => exact absurd hroom (Nat.not_lt_zero _)
    | succ room => rfl
  | cons byte line ih =>
    rw [List.mem_cons, not_or] at hline
    rw [List.length_cons] at hroom
    cases room with
    | zero => exact absurd hroom (Nat.not_lt_zero _)
    | succ room =>
      rw [List.cons_append, readLine, if_neg (Ne.symm hline.1), ih hline.2 (by omega)]
      rfl

/-- `fgets` reads a line that fits with its newline and the NUL. -/
theorem fgets_append {line : List Byte} (hline : newline ∉ line) {size : ℕ}
    (hsize : line.length + 1 < size) (rest : List Byte) (eof : Bool) :
    fgets size ⟨line ++ newline :: rest, eof⟩ = (some (line ++ [newline]), ⟨rest, eof⟩) := by
  have hne : line ++ [newline] ≠ [] := List.append_ne_nil_of_right_ne_nil _ (List.cons_ne_nil _ _)
  rw [fgets, readLine_append hline (by omega)]
  simp [hne]

/-- At the end of the file there is nothing to read. -/
theorem fgets_nil {size : ℕ} (hsize : 1 < size) (eof : Bool) :
    fgets size ⟨[], eof⟩ = (none, ⟨[], true⟩) := by
  obtain ⟨room, hroom⟩ : ∃ room, size - 1 = room + 1 := ⟨size - 2, by omega⟩
  rw [fgets, hroom]
  rfl

end ImageApp.Foundations.LineStreams
