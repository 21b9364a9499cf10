import ImageApp.Foundations.CStrings

/-!
# String literals of SQL

The text between single quotes is read as MySQL reads it by default: a doubled quote stands for a
quote, and a backslash changes the byte behind it into the byte that the pair stands for, except
that the pairs of a backslash with `%` and `_` stand for themselves.

`readLiteral_append_iff` says which bytes can be put between quotes as they are: those without a
quote and with no backslash but in these two pairs. What is read is always shorter than the text
that it is read from, so a doubled quote or another pair cannot be made up for.
-/

set_option autoImplicit false
set_option relaxedAutoImplicit false

namespace ImageApp.Foundations.SqlLiterals

open CStrings

/-- The quote that starts and ends a literal. -/
def singleQuote : Byte := 39

/-- The backslash. -/
def backslash : Byte := 92

/-- The two wildcards of patterns, whose pairs with a backslash are kept. -/
def isWildcard (byte : Byte) : Bool :=
  byte = 37 || byte = 95

/-- The bytes that a backslash and the given byte stand for. -/
def escaped (byte : Byte) : List Byte :=
  if isWildcard byte then [backslash, byte]
  else if byte = 48 then [0]
  else if byte = 98 then [8]
  else if byte = 110 then [10]
  else if byte = 114 then [13]
  else if byte = 116 then [9]
  else if byte = 90 then [26]
  else [byte]

/-- The value of the literal whose opening quote is in front of the text, and the text behind its
closing quote. -/
def readLiteral : List Byte → Option (List Byte × List Byte)
  | [] => none
  | [byte] => if byte = singleQuote then some ([], []) else none
  | byte :: next :: rest =>
    if byte = singleQuote then
      if next = singleQuote then (readLiteral rest).map fun read ↦ (singleQuote :: read.1, read.2)
      else some ([], next :: rest)
    else if byte = backslash then (readLiteral rest).map fun read ↦ (escaped next ++ read.1, read.2)
    else (readLiteral (next :: rest)).map fun read ↦ (byte :: read.1, read.2)

/-- The bytes stand for themselves between quotes. -/
def isPlain : List Byte → Bool
  | [] => true
  | byte :: rest =>
    byte ≠ singleQuote && (byte ≠ backslash || rest.head?.any isWildcard) && isPlain rest

theorem isPlain_cons {byte : Byte} {rest : List Byte} :
    isPlain (byte :: rest) = true ↔
      byte ≠ singleQuote ∧ (byte = backslash → rest.head?.any isWildcard = true) ∧
        isPlain rest = true := by
  rw [isPlain, Bool.and_eq_true, Bool.and_eq_true, Bool.or_eq_true, decide_eq_true_iff,
    decide_eq_true_iff, and_assoc, ← Decidable.imp_iff_not_or]

/-- A pair stands for one byte, or for itself. -/
theorem escaped_cases (byte : Byte) :
    (isWildcard byte = true ∧ escaped byte = [backslash, byte]) ∨
      (isWildcard byte = false ∧ (escaped byte).length = 1) := by
  cases hwildcard : isWildcard byte with
  | true => exact Or.inl ⟨rfl, by rw [escaped, if_pos hwildcard]⟩
  | false =>
    refine Or.inr ⟨rfl, ?_⟩
    unfold escaped
    rw [hwildcard, if_neg Bool.false_ne_true]
    split_ifs <;> rfl

/-- A wildcard is neither a quote nor a backslash. -/
theorem ne_of_isWildcard {byte : Byte} (hwildcard : isWildcard byte = true) :
    byte ≠ singleQuote ∧ byte ≠ backslash := by
  rw [isWildcard, Bool.or_eq_true, decide_eq_true_iff, decide_eq_true_iff] at hwildcard
  rcases hwildcard with rfl | rfl <;> decide

/-! ### Reading a literal -/

/-- How a literal is read from its first byte on: it ends there, or a pair of quotes, a pair with a
backslash or another byte is taken. -/
inductive Reads (text value left : List Byte) : Prop
  | closed (htext : text = singleQuote :: left) (hend : left.head? ≠ some singleQuote)
      (hvalue : value = [])
  | doubled {rest tail : List Byte} (htext : text = singleQuote :: singleQuote :: rest)
      (hrest : readLiteral rest = some (tail, left)) (hvalue : value = singleQuote :: tail)
  | pair {next : Byte} {rest tail : List Byte} (htext : text = backslash :: next :: rest)
      (hrest : readLiteral rest = some (tail, left)) (hvalue : value = escaped next ++ tail)
  | byte {byte : Byte} {rest tail : List Byte} (htext : text = byte :: rest)
      (hquote : byte ≠ singleQuote) (hbackslash : byte ≠ backslash)
      (hrest : readLiteral rest = some (tail, left)) (hvalue : value = byte :: tail)

theorem reads_of_readLiteral {text value left : List Byte}
    (hread : readLiteral text = some (value, left)) : Reads text value left := by
  unfold readLiteral at hread
  split at hread
  · simp at hread
  · split_ifs at hread with hquote
    rw [Option.some.injEq, Prod.mk.injEq] at hread
    exact .closed (by rw [hquote, hread.2]) (by simp [← hread.2]) hread.1.symm
  · split_ifs at hread with hquote hnext hbackslash
    · obtain ⟨⟨tail, rest⟩, hrest, heq⟩ := Option.map_eq_some_iff.mp hread
      rw [Prod.mk.injEq] at heq
      obtain ⟨rfl, rfl⟩ := heq
      exact .doubled (by rw [hquote, hnext]) hrest rfl
    · rw [Option.some.injEq, Prod.mk.injEq] at hread
      refine .closed (by rw [hquote, hread.2]) ?_ hread.1.symm
      rw [← hread.2, List.head?_cons]
      simpa using hnext
    · obtain ⟨⟨tail, rest⟩, hrest, heq⟩ := Option.map_eq_some_iff.mp hread
      rw [Prod.mk.injEq] at heq
      obtain ⟨rfl, rfl⟩ := heq
      exact .pair (by rw [hbackslash]) hrest rfl
    · obtain ⟨⟨tail, rest⟩, hrest, heq⟩ := Option.map_eq_some_iff.mp hread
      rw [Prod.mk.injEq] at heq
      obtain ⟨rfl, rfl⟩ := heq
      exact .byte rfl hquote hbackslash hrest rfl

/-- The value is shorter than the text that was read. -/
theorem length_lt_of_readLiteral {text value left : List Byte}
    (hread : readLiteral text = some (value, left)) : value.length + left.length < text.length := by
  induction hlength : text.length using Nat.strongRecOn generalizing text value with
  | ind length ih =>
    subst hlength
    cases reads_of_readLiteral hread with
    | closed htext hend hvalue => simp [htext, hvalue]
    | doubled htext hrest hvalue =>
      have hshorter := ih _ (by simp only [htext, List.length_cons]; omega) hrest rfl
      simp only [htext, hvalue, List.length_cons]
      omega
    | @pair next rest tail htext hrest hvalue =>
      have hshorter := ih _ (by simp only [htext, List.length_cons]; omega) hrest rfl
      have hpair : (escaped next).length ≤ 2 := by
        rcases escaped_cases next with ⟨-, hkept⟩ | ⟨-, hone⟩
        · simp [hkept]
        · omega
      simp only [htext, hvalue, List.length_cons, List.length_append]
      omega
    | byte htext hquote hbackslash hrest hvalue =>
      have hshorter := ih _ (by simp [htext]) hrest rfl
      simp only [htext, hvalue, List.length_cons]
      omega

/-- A byte that is neither a quote nor a backslash is read as itself. -/
theorem readLiteral_cons {byte : Byte} {text : List Byte} (hquote : byte ≠ singleQuote)
    (hbackslash : byte ≠ backslash) :
    readLiteral (byte :: text) = (readLiteral text).map fun read ↦ (byte :: read.1, read.2) := by
  cases text with
  | nil => simp [readLiteral, hquote]
  | cons next rest => rw [readLiteral, if_neg hquote, if_neg hbackslash]

/-- Plain bytes are read as themselves. -/
theorem readLiteral_of_isPlain {body left : List Byte} (hplain : isPlain body = true)
    (hleft : left.head? ≠ some singleQuote) :
    readLiteral (body ++ singleQuote :: left) = some (body, left) := by
  induction body with
  | nil =>
    cases left with
    | nil => rw [List.nil_append, readLiteral, if_pos rfl]
    | cons next rest =>
      rw [List.head?_cons, ne_eq, Option.some.injEq] at hleft
      rw [List.nil_append, readLiteral, if_pos rfl, if_neg hleft]
  | cons byte body ih =>
    obtain ⟨hquote, hpair, hrest⟩ := isPlain_cons.mp hplain
    have hread := ih hrest
    by_cases hbackslash : byte = backslash
    · -- The wildcard behind the backslash is read with it.
      cases body with
      | nil => simp at hpair; exact absurd hbackslash hpair
      | cons next body =>
        have hwildcard : isWildcard next = true := hpair hbackslash
        obtain ⟨hquote', hbackslash'⟩ := ne_of_isWildcard hwildcard
        rw [List.cons_append, readLiteral_cons hquote' hbackslash', Option.map_eq_some_iff] at hread
        obtain ⟨⟨tail, left'⟩, htail, heq⟩ := hread
        rw [Prod.mk.injEq, List.cons.injEq] at heq
        obtain ⟨⟨-, rfl⟩, rfl⟩ := heq
        rw [List.cons_append, List.cons_append, readLiteral, if_neg hquote, if_pos hbackslash,
          htail, Option.map_some, escaped, if_pos hwildcard, hbackslash]
        rfl
    · rw [List.cons_append, readLiteral_cons hquote hbackslash, hread, Option.map_some]

/-- Bytes that are read as themselves are plain. -/
theorem isPlain_of_readLiteral {body left : List Byte}
    (hread : readLiteral (body ++ singleQuote :: left) = some (body, left)) :
    isPlain body = true := by
  induction hlength : body.length using Nat.strongRecOn generalizing body with
  | ind length ih =>
    subst hlength
    cases body with
    | nil => rfl
    | cons byte body =>
      cases reads_of_readLiteral hread with
      | closed htext hend hvalue => simp at hvalue
      | @doubled rest tail htext hrest hvalue =>
        exfalso
        have hshorter := length_lt_of_readLiteral hrest
        have hbody : body = tail := (List.cons.inj hvalue).2
        have htotal := congrArg List.length htext
        simp only [hbody, List.length_append, List.length_cons] at htotal
        omega
      | @pair next rest tail htext hrest hvalue =>
        rw [List.cons_append, List.cons.injEq] at htext
        obtain ⟨rfl, htext⟩ := htext
        rcases escaped_cases next with ⟨hwildcard, hkept⟩ | ⟨-, hone⟩
        · rw [hkept, List.cons_append, List.cons_append, List.nil_append, List.cons.injEq] at hvalue
          obtain ⟨-, rfl⟩ := hvalue
          rw [List.cons_append, List.cons.injEq] at htext
          obtain ⟨-, rfl⟩ := htext
          obtain ⟨hquote, hbackslash⟩ := ne_of_isWildcard hwildcard
          have hplain := ih _ (by simp only [List.length_cons]; omega) hrest rfl
          refine isPlain_cons.mpr ⟨by decide, fun _ ↦ by simp [hwildcard], isPlain_cons.mpr
            ⟨hquote, fun heq ↦ absurd heq hbackslash, hplain⟩⟩
        · exfalso
          have hshorter := length_lt_of_readLiteral hrest
          have htotal := congrArg List.length htext
          have hsame := congrArg List.length hvalue
          simp only [List.length_append, List.length_cons] at htotal hsame
          omega
      | @byte first rest tail htext hquote hbackslash hrest hvalue =>
        rw [List.cons.injEq] at hvalue
        obtain ⟨rfl, rfl⟩ := hvalue
        rw [List.cons_append, List.cons.injEq] at htext
        obtain ⟨-, rfl⟩ := htext
        exact isPlain_cons.mpr ⟨hquote, fun heq ↦ absurd heq hbackslash,
          ih _ (by simp) hrest rfl⟩

/-- A text between quotes is read as itself if and only if it is plain. -/
theorem readLiteral_append_iff {body left : List Byte} (hleft : left.head? ≠ some singleQuote) :
    readLiteral (body ++ singleQuote :: left) = some (body, left) ↔ isPlain body = true :=
  ⟨isPlain_of_readLiteral, fun hplain ↦ readLiteral_of_isPlain hplain hleft⟩

end ImageApp.Foundations.SqlLiterals
