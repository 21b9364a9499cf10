import Mathlib.Data.List.Infix
import Mathlib.Data.List.TakeWhile
import Mathlib.Data.UInt
import Mathlib.Tactic.Common

/-!
# Memory regions and C strings

A memory region is a list of bytes, and a C string inside it ends at the first NUL. `cstring` reads
the string at the start of a region and `none` when the region has no NUL, which is where the C
function would run off the region. `strstr` is the search of `string.h` on string contents,
`searchRegion` the same search on a region, where a search that meets neither the pattern nor a NUL
runs off the end. `FirstOccurrence` says what the search finds. `overwrite` is `memcpy` into a
region of fixed size, and `exists_clearedCopy` is about copies of fixed size that are cut off by a
NUL. `packed` is a region with strings one after another, and `entryAt` reads one of them.
-/

set_option autoImplicit false
set_option relaxedAutoImplicit false

namespace ImageApp.Foundations.CStrings

/-- A `char` seen as a number from 0 to 255. -/
abbrev Byte := UInt8

/-- The bytes of an ASCII text. -/
def bytes (text : String) : List Byte :=
  text.toList.map fun character ↦ character.toNat.toUInt8

theorem bytes_append (first second : String) :
    bytes (first ++ second) = bytes first ++ bytes second := by
  rw [bytes, String.toList_append, List.map_append, bytes, bytes]

/-- `count` zero bytes. -/
def zeros (count : ℕ) : List Byte :=
  List.replicate count 0

@[simp] theorem length_zeros (count : ℕ) : (zeros count).length = count :=
  List.length_replicate

/-! ### The string at the start of a region -/

/-- The bytes before the first NUL. -/
def untilNul (region : List Byte) : List Byte :=
  region.takeWhile (· ≠ 0)

/-- The C string at the start of a region, or `none` when no NUL ends it inside the region. -/
def cstring (region : List Byte) : Option (List Byte) :=
  if 0 ∈ region then some (untilNul region) else none

/-- Text without a symbol is passed over on the way to the symbol. -/
theorem takeWhile_ne_append {α : Type*} [DecidableEq α] {stop : α} {text : List α}
    (htext : stop ∉ text) (rest : List α) :
    (text ++ rest).takeWhile (· ≠ stop) = text ++ rest.takeWhile (· ≠ stop) := by
  rw [List.takeWhile_append_of_pos]
  intro symbol hmem
  have hne : symbol ≠ stop := fun heq ↦ htext (heq ▸ hmem)
  simpa using hne

/-- Text without a symbol is what comes before the symbol. -/
theorem takeWhile_ne_append_cons {α : Type*} [DecidableEq α] {stop : α} {text : List α}
    (htext : stop ∉ text) (rest : List α) :
    (text ++ stop :: rest).takeWhile (· ≠ stop) = text := by
  rw [takeWhile_ne_append htext, List.takeWhile_cons_of_neg (by simp), List.append_nil]

/-- Text without NUL followed by a NUL is the string before that NUL. -/
theorem untilNul_append_zero {text : List Byte} (htext : (0 : Byte) ∉ text) (rest : List Byte) :
    untilNul (text ++ 0 :: rest) = text :=
  takeWhile_ne_append_cons htext rest

/-- The string in front of a NUL, or in front of an earlier one. -/
theorem untilNul_append_zero_prefix (text rest : List Byte) :
    untilNul (text ++ 0 :: rest) <+: text := by
  induction text with
  | nil => exact (untilNul_append_zero List.not_mem_nil rest).symm ▸ List.nil_prefix
  | cons byte text ih =>
    rcases eq_or_ne byte 0 with rfl | hbyte
    · exact (untilNul_append_zero List.not_mem_nil _).symm ▸ List.nil_prefix
    · rw [List.cons_append, untilNul, List.takeWhile_cons_of_pos (by simpa using hbyte), ← untilNul]
      exact List.prefix_cons_inj byte |>.mpr ih

/-- Text without NUL is the string before the first NUL. -/
theorem untilNul_of_notMem {text : List Byte} (htext : (0 : Byte) ∉ text) :
    untilNul text = text := by
  have happend := takeWhile_ne_append htext []
  rw [List.append_nil, List.takeWhile_nil, List.append_nil] at happend
  exact happend

theorem zero_notMem_untilNul (region : List Byte) : (0 : Byte) ∉ untilNul region := by
  intro hmem
  have hne := List.mem_takeWhile_imp hmem
  simp at hne

@[simp] theorem untilNul_nil : untilNul [] = [] :=
  rfl

theorem untilNul_cons (byte : Byte) (region : List Byte) :
    untilNul (byte :: region) = if byte = 0 then [] else byte :: untilNul region := by
  by_cases hbyte : byte = 0
  · rw [if_pos hbyte, hbyte, untilNul, List.takeWhile_cons_of_neg (by decide)]
  · rw [if_neg hbyte, untilNul, List.takeWhile_cons_of_pos (by simpa using hbyte), untilNul]

theorem untilNul_cons_of_ne {byte : Byte} (hbyte : byte ≠ 0) (region : List Byte) :
    untilNul (byte :: region) = byte :: untilNul region := by
  rw [untilNul_cons, if_neg hbyte]

/-- The string goes on behind text without NUL. -/
theorem untilNul_append {text : List Byte} (htext : (0 : Byte) ∉ text) (region : List Byte) :
    untilNul (text ++ region) = text ++ untilNul region :=
  takeWhile_ne_append htext region

theorem prefix_untilNul (region : List Byte) : untilNul region <+: region :=
  List.takeWhile_prefix _

theorem mem_of_mem_untilNul {byte : Byte} {region : List Byte} (hmem : byte ∈ untilNul region) :
    byte ∈ region :=
  (prefix_untilNul region).mem hmem

theorem length_untilNul_le (region : List Byte) : (untilNul region).length ≤ region.length :=
  (prefix_untilNul region).length_le

@[simp] theorem untilNul_zeros (count : ℕ) : untilNul (zeros count) = [] := by
  cases count with
  | zero => rfl
  | succ count => exact untilNul_append_zero List.not_mem_nil _

/-- A copy of the first bytes of a string that goes on behind the string reads as the first bytes of
the string. -/
theorem untilNul_take_append_zero {text : List Byte} (htext : (0 : Byte) ∉ text) (count : ℕ)
    (after rest : List Byte) :
    untilNul ((text ++ 0 :: after).take count ++ 0 :: rest) = text.take count := by
  have htake : (0 : Byte) ∉ text.take count := fun hmem ↦ htext (List.mem_of_mem_take hmem)
  by_cases hshort : count ≤ text.length
  · rw [List.take_append_of_le_length hshort, untilNul_append_zero htake]
  · obtain ⟨left, hleft⟩ : ∃ left, count - text.length = left + 1 :=
      ⟨count - text.length - 1, by omega⟩
    rw [List.take_append, hleft, List.take_succ_cons, List.append_assoc, List.cons_append,
      untilNul_append_zero htake]

/-- Reading text that is followed by a NUL gives the text up to its own first NUL. -/
theorem cstring_append_zero_eq_untilNul (text rest : List Byte) :
    cstring (text ++ 0 :: rest) = some (untilNul text) := by
  rw [cstring, if_pos (by simp)]
  by_cases hzero : (0 : Byte) ∈ text
  · obtain ⟨front, behind, rfl, hfront⟩ := List.eq_append_cons_of_mem hzero
    rw [List.append_assoc, List.cons_append, untilNul_append_zero hfront,
      untilNul_append_zero hfront]
  · rw [untilNul_append_zero hzero, untilNul_of_notMem hzero]

/-- Reading text that is followed by a NUL gives the text. -/
theorem cstring_append_zero {text : List Byte} (htext : (0 : Byte) ∉ text) (rest : List Byte) :
    cstring (text ++ 0 :: rest) = some text := by
  rw [cstring_append_zero_eq_untilNul, untilNul_of_notMem htext]

/-- The string that starts at a byte: empty at a NUL, and else one byte longer than the next one. -/
theorem cstring_cons (byte : Byte) (region : List Byte) :
    cstring (byte :: region) =
      if byte = 0 then some [] else (cstring region).map (byte :: ·) := by
  by_cases hbyte : byte = 0
  · rw [if_pos hbyte, hbyte, cstring, if_pos List.mem_cons_self]
    exact congrArg some (untilNul_append_zero List.not_mem_nil region)
  · rw [if_neg hbyte, cstring, cstring]
    have hmem : (0 : Byte) ∈ byte :: region ↔ (0 : Byte) ∈ region := by
      rw [List.mem_cons, or_iff_right (Ne.symm hbyte)]
    by_cases hzero : (0 : Byte) ∈ region
    · rw [if_pos (hmem.mpr hzero), if_pos hzero, Option.map_some]
      simp [untilNul, hbyte]
    · rw [if_neg (fun h ↦ hzero (hmem.mp h)), if_neg hzero]
      rfl

/-! ### Searching -/

/-- `strstr` on string contents: the offset of the first occurrence of the pattern. -/
def strstr : List Byte → List Byte → Option ℕ
  | [], pattern => if pattern = [] then some 0 else none
  | byte :: rest, pattern =>
    if pattern <+: byte :: rest then some 0 else (strstr rest pattern).map (· + 1)

/-- `strstr` finds something exactly when the pattern occurs in the text. -/
theorem isSome_strstr (text pattern : List Byte) :
    (strstr text pattern).isSome = true ↔ pattern <:+: text := by
  induction text with
  | nil =>
    by_cases hpattern : pattern = []
    · simp [strstr, hpattern]
    · simp [strstr, hpattern, List.infix_nil]
  | cons byte rest ih =>
    rw [List.infix_cons_iff]
    by_cases hhere : pattern <+: byte :: rest
    · simp [strstr, hhere]
    · simp [strstr, hhere, ih]

/-- The pattern occurs in the text at the offset, and at no earlier one. -/
structure FirstOccurrence (text pattern : List Byte) (offset : ℕ) : Prop where
  occurs : pattern <+: text.drop offset
  not_before : ∀ earlier < offset, ¬ pattern <+: text.drop earlier

theorem firstOccurrence_zero {text pattern : List Byte} :
    FirstOccurrence text pattern 0 ↔ pattern <+: text := by
  constructor
  · exact fun hfirst ↦ hfirst.occurs
  · exact fun hhere ↦ ⟨hhere, fun earlier hearlier ↦ absurd hearlier (Nat.not_lt_zero earlier)⟩

/-- A first occurrence behind the first byte of a text. -/
theorem firstOccurrence_succ {byte : Byte} {rest pattern : List Byte} {offset : ℕ} :
    FirstOccurrence (byte :: rest) pattern (offset + 1) ↔
      ¬ pattern <+: byte :: rest ∧ FirstOccurrence rest pattern offset := by
  constructor
  · rintro ⟨hoccurs, hbefore⟩
    refine ⟨hbefore 0 (Nat.succ_pos offset), hoccurs, fun earlier hearlier ↦ ?_⟩
    exact hbefore (earlier + 1) (Nat.succ_lt_succ hearlier)
  · rintro ⟨hhere, hoccurs, hbefore⟩
    refine ⟨hoccurs, fun earlier hearlier ↦ ?_⟩
    cases earlier with
    | zero => exact hhere
    | succ earlier => exact hbefore earlier (Nat.lt_of_succ_lt_succ hearlier)

/-- `strstr` returns the offset of the first occurrence. -/
theorem strstr_eq_some_iff {text pattern : List Byte} {offset : ℕ} :
    strstr text pattern = some offset ↔ FirstOccurrence text pattern offset := by
  induction text generalizing offset with
  | nil =>
    cases offset with
    | zero => simp [strstr, firstOccurrence_zero]
    | succ offset =>
      constructor
      · intro hfound
        simp [strstr] at hfound
      · intro hfirst
        exact absurd hfirst.occurs (hfirst.not_before 0 (Nat.succ_pos offset))
  | cons byte rest ih =>
    rw [strstr]
    cases offset with
    | zero =>
      rw [firstOccurrence_zero]
      constructor
      · intro hfound
        by_contra hhere
        simp [hhere] at hfound
      · exact fun hhere ↦ if_pos hhere
    | succ offset =>
      rw [firstOccurrence_succ, ← ih]
      by_cases hhere : pattern <+: byte :: rest
      · simp [hhere]
      · simp [hhere]

/-- Search for a pattern in the string at the start of a region: whether it occurs, or `none` when
the search runs off the region. A search that finds the pattern stops there. -/
def searchRegion (region pattern : List Byte) : Option Bool :=
  if (strstr (untilNul region) pattern).isSome then some true
  else if 0 ∈ region then some false
  else none

/-- A search in text that a NUL ends does not run off the region. -/
theorem searchRegion_append_zero {text : List Byte} (htext : (0 : Byte) ∉ text)
    (rest pattern : List Byte) :
    searchRegion (text ++ 0 :: rest) pattern = some (strstr text pattern).isSome := by
  have hzero : (0 : Byte) ∈ text ++ 0 :: rest := by simp
  rw [searchRegion, untilNul_append_zero htext, if_pos hzero]
  cases (strstr text pattern).isSome with
  | true => rfl
  | false => rfl

/-! ### Writing -/

/-- `memcpy` of `data` to the offset `offset` of a region; the region keeps its size when the data
fits. -/
def overwrite (region : List Byte) (offset : ℕ) (data : List Byte) : List Byte :=
  region.take offset ++ data ++ region.drop (offset + data.length)

/-- Writing inside a region keeps its size. -/
theorem length_overwrite {region data : List Byte} {offset : ℕ}
    (hfits : offset + data.length ≤ region.length) :
    (overwrite region offset data).length = region.length := by
  simp only [overwrite, List.length_append, List.length_take, List.length_drop]
  omega

/-- Writing just after a text that is followed by other bytes. -/
theorem overwrite_append (text data rest : List Byte) :
    overwrite (text ++ rest) text.length data = text ++ data ++ rest.drop data.length := by
  rw [overwrite, List.take_left', List.drop_append, List.drop_eq_nil_of_le (by omega)]
  · simp
  · rfl

/-- A copy of `size` bytes whose last byte is cleared keeps a value that is shorter, and the byte
behind the value when there is room for it. -/
theorem exists_clearedCopy (value rest : List Byte) (stop : Byte) {size : ℕ}
    (hsize : value.length < size) :
    ∃ left, ((value ++ stop :: rest).take size).set (size - 1) 0 =
      value ++ (if value.length + 1 < size then stop else 0) :: left := by
  obtain ⟨room, hroom⟩ : ∃ room, size - value.length = room + 1 :=
    ⟨size - value.length - 1, by omega⟩
  have hlast : size - 1 - value.length = room := by omega
  rw [List.take_append, List.take_of_length_le hsize.le, hroom, List.take_succ_cons,
    List.set_append_right _ _ (by omega), hlast]
  cases room with
  | zero =>
    rw [if_neg (by omega), List.set_cons_zero]
    exact ⟨_, rfl⟩
  | succ room =>
    rw [if_pos (by omega), List.set_cons_succ]
    exact ⟨_, rfl⟩

/-- The end of a copy whose last byte is cleared. -/
theorem drop_clearedCopy (start region : List Byte) {size : ℕ} (hsize : start.length < size) :
    (((start ++ region).take size).set (size - 1) 0).drop start.length =
      (region.take (size - start.length)).set (size - start.length - 1) 0 := by
  have hlast : ¬ size - 1 < start.length := by omega
  rw [List.drop_set, if_neg hlast, List.drop_take, List.drop_left' rfl]
  congr 1
  omega

/-! ### Strings one after another -/

/-- Strings one after another, each with its NUL. -/
def packed (texts : List (List Byte)) : List Byte :=
  texts.flatMap fun text ↦ text ++ [0]

/-- The string after the first `idx` strings of a region. -/
def entryAt : List Byte → ℕ → Option (List Byte)
  | region, 0 => cstring region
  | region, idx + 1 => (cstring region).bind fun text ↦ entryAt (region.drop (text.length + 1)) idx

theorem packed_cons (text : List Byte) (texts : List (List Byte)) (rest : List Byte) :
    packed (text :: texts) ++ rest = text ++ 0 :: (packed texts ++ rest) := by
  simp [packed]

theorem packed_append (first second : List (List Byte)) :
    packed (first ++ second) = packed first ++ packed second :=
  List.flatMap_append ..

theorem packed_singleton (text : List Byte) : packed [text] = text ++ [0] :=
  List.append_nil _

theorem packed_eq_cons (text : List Byte) (texts : List (List Byte)) :
    packed (text :: texts) = text ++ 0 :: packed texts := by
  simp [packed]

/-- Empty strings one after another. -/
theorem packed_replicate_nil (count : ℕ) : packed (List.replicate count []) = zeros count := by
  rw [packed, List.flatMap_replicate]
  simp [zeros]

/-- The entries of a region that starts with packed strings are these strings, and then the entries
of the rest. -/
theorem entryAt_packed_append {texts : List (List Byte)}
    (htexts : ∀ text ∈ texts, (0 : Byte) ∉ text) (rest : List Byte) (idx : ℕ) :
    entryAt (packed texts ++ rest) idx =
      if idx < texts.length then texts[idx]? else entryAt rest (idx - texts.length) := by
  induction texts generalizing idx with
  | nil => simp [packed]
  | cons text texts ih =>
    have hread : cstring (text ++ 0 :: (packed texts ++ rest)) = some text :=
      cstring_append_zero (htexts text List.mem_cons_self) _
    rw [packed_cons]
    cases idx with
    | zero => simpa [entryAt] using hread
    | succ idx =>
      have hrest := ih (fun other hother ↦ htexts other (List.mem_cons_of_mem _ hother)) idx
      rw [entryAt, hread, Option.bind_some, List.drop_append, List.drop_eq_nil_of_le (by omega),
        List.nil_append, Nat.add_sub_cancel_left, List.drop_succ_cons, List.drop_zero, hrest]
      simp

/-- The entries of packed strings are these strings. -/
theorem entryAt_packed {texts : List (List Byte)} (htexts : ∀ text ∈ texts, (0 : Byte) ∉ text)
    (idx : ℕ) : entryAt (packed texts) idx = texts[idx]? := by
  have hnothing : ∀ idx, entryAt [] idx = none := by
    intro idx
    cases idx with
    | zero => rfl
    | succ idx => rfl
  have hread := entryAt_packed_append htexts [] idx
  rw [List.append_nil, hnothing] at hread
  rw [hread]
  split_ifs with hidx
  · rfl
  · rw [List.getElem?_eq_none (Nat.not_lt.mp hidx)]

/-- Behind the last string of a region there are only empty strings. -/
theorem eq_nil_of_entryAt_zeros {count idx : ℕ} {text : List Byte}
    (hentry : entryAt (zeros count) idx = some text) : text = [] := by
  have hread : ∀ {count text}, cstring (zeros count) = some text → text = [] := by
    intro count text hread
    rw [cstring, Option.ite_none_right_eq_some, Option.some.injEq] at hread
    rw [← hread.2, untilNul_zeros]
  induction idx generalizing count with
  | zero => exact hread hentry
  | succ idx ih =>
    obtain ⟨first, hfirst, hrest⟩ := Option.bind_eq_some_iff.mp hentry
    rw [zeros, List.drop_replicate] at hrest
    exact ih hrest

/-- An entry behind a byte is the end of an entry that starts no later than the byte. -/
theorem exists_entryAt_cons (byte : Byte) {region text : List Byte} {idx : ℕ}
    (hentry : entryAt region idx = some text) :
    ∃ idx' text', entryAt (byte :: region) idx' = some text' ∧ text <:+ text' := by
  by_cases hbyte : byte = 0
  · refine ⟨idx + 1, text, ?_, List.suffix_refl text⟩
    rw [entryAt, cstring_cons, if_pos hbyte, Option.bind_some]
    exact hentry
  · cases idx with
    | zero =>
      refine ⟨0, byte :: text, ?_, List.suffix_cons byte text⟩
      rw [entryAt] at hentry
      rw [entryAt, cstring_cons, if_neg hbyte, hentry, Option.map_some]
    | succ idx =>
      obtain ⟨first, hfirst, hrest⟩ := Option.bind_eq_some_iff.mp hentry
      refine ⟨idx + 1, text, ?_, List.suffix_refl text⟩
      rw [entryAt, cstring_cons, if_neg hbyte, hfirst, Option.map_some, Option.bind_some]
      exact hrest

/-- The entries of what is left of a region are ends of its entries. -/
theorem exists_entryAt_of_drop {region text : List Byte} {count idx : ℕ}
    (hentry : entryAt (region.drop count) idx = some text) :
    ∃ idx' text', entryAt region idx' = some text' ∧ text <:+ text' := by
  induction count generalizing region with
  | zero => exact ⟨idx, text, hentry, List.suffix_refl text⟩
  | succ count ih =>
    cases region with
    | nil => exact ⟨idx, text, hentry, List.suffix_refl text⟩
    | cons byte region =>
      obtain ⟨idx₁, text₁, hentry₁, hends₁⟩ := ih hentry
      obtain ⟨idx₂, text₂, hentry₂, hends₂⟩ := exists_entryAt_cons byte hentry₁
      exact ⟨idx₂, text₂, hentry₂, hends₁.trans hends₂⟩

/-- What is left of packed strings is packed, too: the first string may have lost its start. -/
theorem exists_packed_drop (texts : List (List Byte)) (count : ℕ) :
    ∃ left, (packed texts).drop count = packed left ∧
      ∀ text ∈ left, ∃ whole ∈ texts, text <:+ whole := by
  induction texts generalizing count with
  | nil => exact ⟨[], List.drop_nil, fun _ htext ↦ absurd htext List.not_mem_nil⟩
  | cons first texts ih =>
    have hpacked := packed_eq_cons first texts
    rw [hpacked]
    rcases Nat.lt_or_ge first.length count with hbehind | hinside
    · obtain ⟨more, rfl⟩ : ∃ more, count = first.length + (more + 1) :=
        ⟨count - first.length - 1, by omega⟩
      obtain ⟨left, hleft, hends⟩ := ih more
      refine ⟨left, ?_, fun text htext ↦ ?_⟩
      · rw [List.drop_append, List.drop_eq_nil_of_le (by omega), List.nil_append,
          Nat.add_sub_cancel_left, List.drop_succ_cons, hleft]
      · obtain ⟨whole, hwhole, hend⟩ := hends text htext
        exact ⟨whole, List.mem_cons_of_mem _ hwhole, hend⟩
    · refine ⟨first.drop count :: texts, ?_, fun text htext ↦ ?_⟩
      · rw [List.drop_append_of_le_length hinside]
        simp [packed]
      · rcases List.mem_cons.mp htext with rfl | hrest
        · exact ⟨first, List.mem_cons_self, List.drop_suffix count first⟩
        · exact ⟨text, List.mem_cons_of_mem _ hrest, List.suffix_rfl⟩

/-- Packed strings hold one NUL each. -/
theorem count_zero_packed {texts : List (List Byte)} (htexts : ∀ text ∈ texts, (0 : Byte) ∉ text) :
    (packed texts).count 0 = texts.length := by
  induction texts with
  | nil => rfl
  | cons text texts ih =>
    have hrest := ih fun other hother ↦ htexts other (List.mem_cons_of_mem _ hother)
    have htext := List.count_eq_zero.mpr (htexts text List.mem_cons_self)
    rw [← List.append_nil (packed (text :: texts)), packed_cons, List.append_nil, List.count_append,
      List.count_cons_self, htext, hrest, List.length_cons, Nat.zero_add]

end ImageApp.Foundations.CStrings
