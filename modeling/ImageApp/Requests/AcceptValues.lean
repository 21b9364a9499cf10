import ImageApp.Foundations.DecimalPrefixes
import ImageApp.Requests.AcceptEntries

/-!
# Lists of media ranges

The Accept values that a client writes: media ranges between commas, each with or without a quality,
and with or without one space in front of it and in front of the `q`. `ValueEntry.result` is what
`get_list_accept_image` makes of an entry, and `acceptEnd_acceptValue` says that it ends with these
results for the entries that it does not leave out, if there are one to three.
-/

set_option autoImplicit false
set_option relaxedAutoImplicit false

namespace ImageApp.Requests

open Foundations.CStrings Foundations.DecimalPrefixes Foundations.Tokens Server
open Server.AcceptParse

/-- A visible ASCII character that is no delimiter. -/
def isTokenByte (byte : Byte) : Bool :=
  33 ≤ byte.toNat ∧ byte.toNat ≤ 126 ∧ byte ∉ bytes "\"(),/:;<=>?@[\\]\x7b\x7d"

/-- A name in a media range. -/
structure IsToken (text : List Byte) : Prop where
  ne_nil : text ≠ []
  token_bytes : ∀ byte ∈ text, isTokenByte byte

theorem isToken_of_all {text : List Byte} (hne : text ≠ []) (hall : text.all isTokenByte) :
    IsToken text :=
  ⟨hne, List.all_eq_true.mp hall⟩

/-- A media range: a type and a subtype. -/
structure MediaRange where
  type : List Byte
  subtype : List Byte
  type_token : IsToken type
  subtype_token : IsToken subtype

/-- A media range as text. -/
def MediaRange.text (range : MediaRange) : List Byte :=
  range.type ++ slash :: range.subtype

/-- The range of PNG images, `image/png`. -/
def pngRange : MediaRange :=
  ⟨bytes "image", bytes "png", isToken_of_all (by decide) (by decide),
    isToken_of_all (by decide) (by decide)⟩

/-- A quality, and whether a space stands in front of it. -/
structure QualityParameter where
  spaced : Bool
  quality : Decimal
  numeral : quality.IsNumeral

/-- A space, if there is one. -/
def blank (spaced : Bool) : List Byte :=
  if spaced then [space] else []

/-- A quality as text, behind its semicolon. -/
def QualityParameter.text (parameter : QualityParameter) : List Byte :=
  blank parameter.spaced ++ (bytes "q=" ++ parameter.quality.text)

/-- The quality `q=1`. -/
def fullQuality : QualityParameter :=
  ⟨false, ⟨bytes "1", none⟩,
    ⟨List.all_eq_true.mp (by decide), List.all_eq_true.mp (by decide), Or.inl (by decide)⟩⟩

/-- An entry of an Accept value. -/
structure ValueEntry where
  spaced : Bool
  range : MediaRange
  parameter : Option QualityParameter

/-- An entry up to its semicolon. -/
def ValueEntry.front (entry : ValueEntry) : List Byte :=
  blank entry.spaced ++ entry.range.text

/-- An entry as text. -/
def ValueEntry.text (entry : ValueEntry) : List Byte :=
  entry.front ++ (entry.parameter.map fun parameter ↦ semicolon :: parameter.text).getD []

/-- An Accept value. -/
def acceptValue (entries : List ValueEntry) : List Byte :=
  [comma].intercalate (entries.map ValueEntry.text)

/-- The quality and the format that the second loop stores for an entry. -/
def ValueEntry.result (arith : Arithmetic) (strtof : List Byte → ℚ × Bool) (entry : ValueEntry) :
    ℚ × ExtImage :=
  match entry.parameter with
  | none =>
    if (strstr entry.front (bytes "image/")).isSome then
      (1, if entry.front = bytes "image/*" then .allExt else plainExtension entry.front .jpg)
    else
      (0, if (strstr entry.front (bytes "*/*")).isSome then .allExt
        else lastExtension entry.front .jpg)
  | some parameter =>
    let (q, error) := strtof (parameter.text.drop 3)
    if (strstr entry.front (bytes "*/*")).isSome then
      (if q = 0 then fallbackQuality arith else q, .allExt)
    else (if error then fallbackQuality arith else q, lastExtension entry.front .jpg)

/-! ### The bytes of an entry -/

theorem IsToken.notMem {text : List Byte} (htoken : IsToken text) {byte : Byte}
    (hbyte : isTokenByte byte = false) : byte ∉ text := by
  intro hmem
  have htrue := htoken.token_bytes byte hmem
  rw [hbyte] at htrue
  exact Bool.false_ne_true htrue

theorem MediaRange.notMem_text (range : MediaRange) {byte : Byte}
    (hbyte : isTokenByte byte = false) (hslash : byte ≠ slash) : byte ∉ range.text := by
  simp only [MediaRange.text, List.mem_append, List.mem_cons, not_or]
  exact ⟨range.type_token.notMem hbyte, hslash, range.subtype_token.notMem hbyte⟩

theorem mem_blank {spaced : Bool} {byte : Byte} (hmem : byte ∈ blank spaced) : byte = space := by
  cases spaced with
  | false => exact absurd hmem List.not_mem_nil
  | true => exact List.mem_singleton.mp hmem

theorem ValueEntry.notMem_front (entry : ValueEntry) {byte : Byte}
    (hbyte : isTokenByte byte = false) (hslash : byte ≠ slash) (hspace : byte ≠ space) :
    byte ∉ entry.front := by
  rw [ValueEntry.front, List.mem_append, not_or]
  exact ⟨fun hmem ↦ hspace (mem_blank hmem), entry.range.notMem_text hbyte hslash⟩

theorem ValueEntry.front_ne_nil (entry : ValueEntry) : entry.front ≠ [] := by
  simp [ValueEntry.front, MediaRange.text]

/-- The bytes of a quality. -/
def isQualityByte (byte : Byte) : Bool :=
  byte = space ∨ byte ∈ bytes "q=." ∨ isDigit byte

theorem QualityParameter.isQualityByte_of_mem (parameter : QualityParameter) {byte : Byte}
    (hmem : byte ∈ parameter.text) : isQualityByte byte := by
  rw [isQualityByte, decide_eq_true_iff]
  rw [QualityParameter.text, List.mem_append, List.mem_append, Decimal.text,
    List.mem_append] at hmem
  rcases hmem with hblank | hname | hwhole | hfraction
  · exact Or.inl (mem_blank hblank)
  · exact Or.inr (Or.inl (List.mem_append_left (bytes ".") hname))
  · exact Or.inr (Or.inr (parameter.numeral.whole_digits byte hwhole))
  · have hdecimals := parameter.numeral.decimals_digits byte
    rw [Decimal.decimals] at hdecimals
    cases hcase : parameter.quality.fraction with
    | none =>
      rw [hcase] at hfraction
      exact absurd hfraction List.not_mem_nil
    | some fraction =>
      rw [hcase] at hfraction hdecimals
      rcases List.mem_cons.mp hfraction with hpoint | hdigit
      · rw [hpoint]
        exact Or.inr (Or.inl (by decide))
      · exact Or.inr (Or.inr (hdecimals hdigit))

theorem QualityParameter.notMem_text (parameter : QualityParameter) {byte : Byte}
    (hbyte : isQualityByte byte = false) : byte ∉ parameter.text := by
  intro hmem
  have htrue := parameter.isQualityByte_of_mem hmem
  rw [hbyte] at htrue
  exact Bool.false_ne_true htrue

theorem ValueEntry.notMem_text (entry : ValueEntry) {byte : Byte}
    (hbyte : isTokenByte byte = false) (hquality : isQualityByte byte = false)
    (hslash : byte ≠ slash) (hspace : byte ≠ space) (hsemicolon : byte ≠ semicolon) :
    byte ∉ entry.text := by
  rw [ValueEntry.text, List.mem_append, not_or]
  refine ⟨entry.notMem_front hbyte hslash hspace, ?_⟩
  cases entry.parameter with
  | none => exact List.not_mem_nil
  | some parameter =>
    rw [Option.map_some, Option.getD_some, List.mem_cons, not_or]
    exact ⟨hsemicolon, parameter.notMem_text hquality⟩

theorem ValueEntry.text_ne_nil (entry : ValueEntry) : entry.text ≠ [] :=
  List.append_ne_nil_of_left_ne_nil entry.front_ne_nil _

theorem ValueEntry.zero_notMem (entry : ValueEntry) : (0 : Byte) ∉ entry.text :=
  entry.notMem_text (by decide) (by decide) (by decide) (by decide) (by decide)

/-- The tokens of an Accept value are its entries. -/
theorem tokens_acceptValue (entries : List ValueEntry) :
    tokens comma (acceptValue entries) = entries.map ValueEntry.text := by
  have hcomma : ∀ text ∈ entries.map ValueEntry.text, comma ∉ text := by
    intro text htext
    obtain ⟨entry, -, rfl⟩ := List.mem_map.mp htext
    exact entry.notMem_text (by decide) (by decide) (by decide) (by decide) (by decide)
  have hsome : ∀ text ∈ entries.map ValueEntry.text, text ≠ [] := by
    intro text htext
    obtain ⟨entry, -, rfl⟩ := List.mem_map.mp htext
    exact entry.text_ne_nil
  rcases entries with _ | ⟨entry, entries⟩
  · rfl
  · rw [tokens, acceptValue, List.splitOn_intercalate comma hcomma (by simp)]
    refine List.filter_eq_self.mpr fun text htext ↦ ?_
    simpa using hsome text htext

theorem zero_notMem_acceptValue (entries : List ValueEntry) :
    (0 : Byte) ∉ acceptValue entries := by
  induction entries with
  | nil => exact List.not_mem_nil
  | cons entry entries ih =>
    rcases entries with _ | ⟨next, entries⟩
    · simpa [acceptValue] using entry.zero_notMem
    · have hsplit : acceptValue (entry :: next :: entries) =
          entry.text ++ comma :: acceptValue (next :: entries) := by
        simp [acceptValue]
      rw [hsplit, List.mem_append, List.mem_cons, not_or, not_or]
      exact ⟨entry.zero_notMem, by decide, ih⟩

/-- A pattern without spaces is in front of the semicolon if it is in the range. -/
theorem ValueEntry.isSome_strstr_front (entry : ValueEntry) {pattern : List Byte}
    (hpattern : pattern ≠ []) (hspace : space ∉ pattern) :
    (strstr entry.front pattern).isSome ↔ (strstr entry.range.text pattern).isSome := by
  rw [isSome_strstr, isSome_strstr, ValueEntry.front]
  cases entry.spaced with
  | false => rfl
  | true =>
    have hsplit := @infix_append_cons_iff _ space pattern [] entry.range.text hspace
    rw [List.infix_nil, or_iff_right hpattern] at hsplit
    exact hsplit

/-- A pattern with a slash is in a range if it lies around its slash. -/
theorem MediaRange.isSome_strstr_iff (range : MediaRange) (before behind : List Byte) :
    (strstr range.text (before ++ slash :: behind)).isSome ↔
      before <:+ range.type ∧ behind <+: range.subtype := by
  rw [isSome_strstr, MediaRange.text]
  exact infix_around_iff (range.type_token.notMem (by decide))
    (range.subtype_token.notMem (by decide))

/-- A pattern that a quality does not contain is in an entry if it is in its range. -/
theorem ValueEntry.isSome_strstr_text (entry : ValueEntry) {pattern : List Byte} {byte : Byte}
    (hbyte : byte ∈ pattern) (hquality : isQualityByte byte = false)
    (hsemicolon : semicolon ∉ pattern) (hspace : space ∉ pattern) :
    (strstr entry.text pattern).isSome ↔ (strstr entry.range.text pattern).isSome := by
  rw [← entry.isSome_strstr_front (List.ne_nil_of_mem hbyte) hspace, isSome_strstr, isSome_strstr,
    ValueEntry.text]
  cases entry.parameter with
  | none =>
    rw [Option.map_none, Option.getD_none, List.append_nil]
  | some parameter =>
    rw [Option.map_some, Option.getD_some, infix_append_cons_iff hsemicolon, or_iff_left]
    exact fun hoccurs ↦ parameter.notMem_text hquality (hoccurs.subset hbyte)

/-- An entry is left out if its range looks like text or an application. -/
theorem ValueEntry.discarded_text_iff (entry : ValueEntry) :
    Discarded entry.text ↔ Discarded entry.range.text := by
  have htext := @ValueEntry.isSome_strstr_text entry (bytes "text") 116 (by decide) (by decide)
    (by decide) (by decide)
  have happlication := @ValueEntry.isSome_strstr_text entry (bytes "application") 97 (by decide)
    (by decide) (by decide) (by decide)
  rw [Discarded, Discarded, htext, happlication]

/-! ### What becomes of an entry -/

/-- The tokens of an entry without a quality. -/
theorem entryTokens_of_none {entry : ValueEntry} (hnone : entry.parameter = none) :
    (entryTokens entry.text).offset1 = some 0 ∧
      (entryTokens entry.text).token1 = some (entry.front ++ [0]) ∧
      (entryTokens entry.text).token2 = none := by
  have htext : entry.text = List.replicate 0 semicolon ++ entry.front := by
    rw [ValueEntry.text, hnone]
    simp
  rw [htext, entryTokens_of_last 0 (entry.notMem_front (by decide) (by decide) (by decide))
    (entry.notMem_front (by decide) (by decide) (by decide)) entry.front_ne_nil]
  exact ⟨rfl, rfl, rfl⟩

/-- The tokens of an entry with a quality. -/
theorem entryTokens_of_some {entry : ValueEntry} {parameter : QualityParameter}
    (hsome : entry.parameter = some parameter) :
    (entryTokens entry.text).offset1 = some 0 ∧
      (∃ rest, (entryTokens entry.text).token1 = some (entry.front ++ 0 :: rest)) ∧
      (entryTokens entry.text).token2 = some (parameter.text ++ [0]) := by
  have htext : entry.text = List.replicate 0 semicolon ++ entry.front ++
      semicolon :: parameter.text := by
    rw [ValueEntry.text, hsome]
    simp
  have hzero : (0 : Byte) ∉ entry.front :=
    entry.notMem_front (by decide) (by decide) (by decide)
  have hquality : parameter.text ≠ [] := by simp [QualityParameter.text, bytes]
  have hsecond := @secondToken_of_last 0 parameter.text (parameter.notMem_text (by decide)) hquality
  have htokens := @entryTokens_of_token 0 entry.front parameter.text hzero
    (parameter.notMem_text (by decide)) (entry.notMem_front (by decide) (by decide) (by decide))
    entry.front_ne_nil
  rw [List.replicate_zero, List.nil_append] at hsecond
  rw [hsecond] at htokens
  rw [htext]
  exact htokens

/-- The quality is read three bytes behind the start of its parameter. -/
theorem readQuality_parameter (strtof : List Byte → ℚ × Bool) (parameter : QualityParameter) :
    readQuality strtof (parameter.text ++ [0]) = some (strtof (parameter.text.drop 3)) := by
  have hlength : 3 ≤ parameter.text.length := by
    have hpos := List.length_pos_of_ne_nil parameter.numeral.text_ne_nil
    have hname : (bytes "q=").length = 2 := by decide
    rw [QualityParameter.text, List.length_append, List.length_append, hname]
    omega
  have hzero : (0 : Byte) ∉ parameter.text.drop 3 := fun hmem ↦
    parameter.notMem_text (by decide) (List.mem_of_mem_drop hmem)
  rw [readQuality, if_pos (by simpa using Nat.lt_succ_of_le hlength),
    List.drop_append_of_le_length hlength, untilNul_append_zero hzero]

variable {arith : Arithmetic} {strtof : List Byte → ℚ × Bool}

/-- The second loop stores the result of an entry. -/
theorem entryOutcome_text (entry : ValueEntry) :
    entryOutcome arith strtof entry.text = .ok (entry.result arith strtof) := by
  have hzero : (0 : Byte) ∉ entry.front :=
    entry.notMem_front (by decide) (by decide) (by decide)
  rw [entryOutcome, ValueEntry.result]
  cases hparameter : entry.parameter with
  | none =>
    obtain ⟨-, htoken1, htoken2⟩ := entryTokens_of_none hparameter
    rw [htoken1, htoken2]
    simp only [entryValue, untilNul_append_zero hzero]
    split_ifs <;> rfl
  | some parameter =>
    obtain ⟨-, ⟨rest, htoken1⟩, htoken2⟩ := entryTokens_of_some hparameter
    rw [htoken1, htoken2]
    simp only [entryValue, untilNul_append_zero hzero, readQuality_parameter]
    split_ifs <;> rfl

theorem offset1_text (entry : ValueEntry) : (entryTokens entry.text).offset1 = some 0 := by
  cases hparameter : entry.parameter with
  | none => exact (entryTokens_of_none hparameter).1
  | some parameter => exact (entryTokens_of_some hparameter).1

/-- The entries that are not left out. -/
def keptEntries (entries : List ValueEntry) : List ValueEntry :=
  entries.filter fun entry ↦ ¬ Discarded entry.range.text

theorem keptTypes_acceptValue (entries : List ValueEntry) :
    keptTypes (untilNul (acceptValue entries)) = (keptEntries entries).map ValueEntry.text := by
  have hsame : ∀ entry : ValueEntry, decide (¬ Discarded entry.text) =
      decide (¬ Discarded entry.range.text) := fun entry ↦ by
    rw [decide_eq_decide, entry.discarded_text_iff]
  rw [untilNul_of_notMem (zero_notMem_acceptValue entries), keptTypes, tokens_acceptValue,
    List.filter_map, keptEntries]
  exact congrArg _ (List.filter_congr fun entry _ ↦ hsame entry)

theorem mapM_text (entries : List ValueEntry) :
    (entries.map ValueEntry.text).mapM (entryOutcome arith strtof) =
      .ok (entries.map (ValueEntry.result arith strtof)) := by
  induction entries with
  | nil => rfl
  | cons entry entries ih =>
    rw [List.map_cons, List.mapM_cons, entryOutcome_text, ih]
    rfl

/-- `get_list_accept_image` on a list of at most three media ranges: it ends the program if all of
them are left out, and else it comes back with the results of those that are not. -/
theorem acceptEnd_acceptValue {entries : List ValueEntry} (hroom : entries.length ≤ 3) :
    acceptEnd arith strtof (acceptValue entries) =
      if keptEntries entries = [] then (.aborted, [])
      else (.parsed, (keptEntries entries).map (ValueEntry.result arith strtof)) := by
  have hlength : ((keptEntries entries).map ValueEntry.text).length < acceptPreallocation := by
    rw [List.length_map, keptEntries]
    exact Nat.lt_succ_of_le ((List.length_filter_le _ _).trans hroom)
  rw [acceptEnd, keptTypes_acceptValue]
  simp only [List.map_eq_nil_iff, if_neg (Nat.not_le.mpr hlength), entriesEnd, mapM_text]
  split_ifs with hnone hlast
  · rfl
  · rfl
  · refine absurd ?_ hlast
    obtain ⟨last, hmem⟩ := Option.ne_none_iff_exists'.mp
      (fun h ↦ hnone (List.getLast?_eq_none_iff.mp h))
    rw [List.getLast?_map, hmem, Option.map_some, Option.bind_some, offset1_text]

end ImageApp.Requests
