import ImageApp.Foundations.DecimalPrefixes
import ImageApp.Requests.AcceptEntries

/-!
# Which Accept lines are safe

`get_list_accept_image` comes back with a list that is not empty for one to three types that are not
left out, when each of them has a first token and a parameter, if any, that is long enough, and when
the last one does not start with a semicolon. On every other line it ends the program, leaves an
allocation, searches in a null pointer, or frees what it did not allocate (`parsesSafely_iff`).
-/

set_option autoImplicit false
set_option relaxedAutoImplicit false

namespace ImageApp.Requests

open Foundations.CStrings Foundations.DecimalPrefixes Foundations.Tokens Server
open Server.AcceptParse

/-- The function comes back, and its list has a first entry. -/
def ParsesSafely (arith : Arithmetic) (strtof : List Byte → ℚ × Bool) (acceptLine : List Byte) :
    Prop :=
  ∃ calls, (getListAcceptImage arith strtof acceptLine calls).parse.place = .ended .parsed ∧
    (getListAcceptImage arith strtof acceptLine calls).parse.bufImList ≠ []

/-- A type from its first token on. -/
def firstText (type : List Byte) : List Byte :=
  type.dropWhile (· = semicolon)

/-- A type from its second token on. -/
def secondText (type : List Byte) : List Byte :=
  ((firstText type).dropWhile (· ≠ semicolon)).dropWhile (· = semicolon)

/-- A type has a first token, and what there is from its second token on has at least three bytes,
because the quality is read three bytes behind the start of that token. -/
def SplitsWell (type : List Byte) : Prop :=
  firstText type ≠ [] ∧ (secondText type = [] ∨ 3 ≤ (secondText type).length)

/-- One to three types are kept, each of them can be split, and the last one starts with its first
token. -/
structure LineSplitsWell (acceptLine : List Byte) : Prop where
  some_kept : keptTypes (untilNul acceptLine) ≠ []
  room : (keptTypes (untilNul acceptLine)).length < acceptPreallocation
  splits : ∀ type ∈ keptTypes (untilNul acceptLine), SplitsWell type
  starts : ∀ type ∈ (keptTypes (untilNul acceptLine)).getLast?, type.head? ≠ some semicolon

section Entries

variable {arith : Arithmetic} {strtof : List Byte → ℚ × Bool}

theorem not_exists_ok {α : Type*} (outcome : AcceptOutcome) :
    ¬ ∃ value : α, (.error outcome : Except AcceptOutcome α) = .ok value := by
  rintro ⟨value, hvalue⟩
  cases hvalue

/-- An entry without a second token is always stored. -/
theorem exists_entryValue_none (token1 : List Byte) :
    ∃ value, entryValue arith strtof (some token1) none = .ok value := by
  simp only [entryValue]
  split_ifs
  · exact ⟨_, rfl⟩
  · exact ⟨_, rfl⟩
  · exact ⟨_, rfl⟩
  · exact ⟨_, rfl⟩

/-- An entry with a second token is stored when its quality can be read. -/
theorem exists_entryValue_some_iff (token1 token2 : List Byte) :
    (∃ value, entryValue arith strtof (some token1) (some token2) = .ok value) ↔
      3 < token2.length := by
  simp only [entryValue, readQuality]
  by_cases hlength : 3 < token2.length
  · rw [if_pos hlength]
    refine iff_of_true ?_ hlength
    simp only
    split_ifs
    · exact ⟨_, rfl⟩
    · exact ⟨_, rfl⟩
    · exact ⟨_, rfl⟩
    · exact ⟨_, rfl⟩
  · rw [if_neg hlength]
    exact iff_of_false (not_exists_ok _) hlength

theorem dropWhile_ne_append {sep : Byte} {token : List Byte} (hsep : sep ∉ token)
    (rest : List Byte) : (token ++ rest).dropWhile (· ≠ sep) = rest.dropWhile (· ≠ sep) := by
  refine List.dropWhile_append_of_pos fun byte hbyte ↦ ?_
  have hne : byte ≠ sep := fun heq ↦ hsep (heq ▸ hbyte)
  simpa using hne

/-- The parts of a type without a semicolon behind its first token. -/
theorem firstText_last (n : ℕ) {token : List Byte} (hsep : semicolon ∉ token)
    (htoken : token ≠ []) :
    firstText (List.replicate n semicolon ++ token) = token ∧
      secondText (List.replicate n semicolon ++ token) = [] := by
  have hhead := head?_ne_of_notMem hsep [] htoken
  have hdrop := dropWhile_ne_append hsep []
  rw [List.append_nil] at hhead hdrop
  have hfirst : firstText (List.replicate n semicolon ++ token) = token := by
    rw [firstText, dropWhile_replicate_append n hhead]
  exact ⟨hfirst, by rw [secondText, hfirst, hdrop, List.dropWhile_nil, List.dropWhile_nil]⟩

/-- The parts of a type with one. -/
theorem firstText_token (n : ℕ) {token : List Byte} (more : List Byte) (hsep : semicolon ∉ token)
    (htoken : token ≠ []) :
    firstText (List.replicate n semicolon ++ token ++ semicolon :: more) =
        token ++ semicolon :: more ∧
      secondText (List.replicate n semicolon ++ token ++ semicolon :: more) =
        more.dropWhile (· = semicolon) := by
  have hhead := head?_ne_of_notMem hsep (semicolon :: more) htoken
  have hfirst : firstText (List.replicate n semicolon ++ token ++ semicolon :: more) =
      token ++ semicolon :: more := by
    rw [firstText, List.append_assoc, dropWhile_replicate_append n hhead]
  refine ⟨hfirst, ?_⟩
  rw [secondText, hfirst, dropWhile_ne_append hsep]
  simp

/-- An entry is stored if and only if its type can be split. -/
theorem exists_entryOutcome_iff {type : List Byte} (hzero : (0 : Byte) ∉ type) :
    (∃ value, entryOutcome arith strtof type = .ok value) ↔ SplitsWell type := by
  rw [SplitsWell]
  cases tokenShape semicolon type with
  | separators n =>
    have hnone : firstText (List.replicate n semicolon) = [] := by simp [firstText]
    obtain ⟨htoken1, htoken2⟩ := entryTokens_of_separators n
    rw [entryOutcome, htoken1, htoken2, hnone]
    exact iff_of_false (not_exists_ok _) fun hsplits ↦ hsplits.1 rfl
  | @last n token hsep htoken =>
    have htext : (0 : Byte) ∉ token := fun hmem ↦ hzero (List.mem_append_right _ hmem)
    obtain ⟨hfirst, hsecond⟩ := firstText_last n hsep htoken
    rw [entryOutcome, entryTokens_of_last n htext hsep htoken, hfirst, hsecond]
    exact iff_of_true (exists_entryValue_none _) ⟨htoken, Or.inl rfl⟩
  | @token n token more hsep htoken =>
    obtain ⟨htext, hmore⟩ := notMem_of_notMem_token hzero
    obtain ⟨hfirst, hsecond⟩ := firstText_token n more hsep htoken
    obtain ⟨-, ⟨rest, htoken1⟩, htoken2⟩ := entryTokens_of_token n htext hmore hsep htoken
    rw [entryOutcome, htoken1, htoken2, hfirst, hsecond, secondToken]
    have hsome : token ++ semicolon :: more ≠ [] := by simp
    rcases eq_or_ne (more.dropWhile (· = semicolon)) [] with hempty | hbody
    · simp only [if_pos hempty]
      exact iff_of_true (exists_entryValue_none _) ⟨hsome, Or.inl hempty⟩
    · simp only [if_neg hbody]
      rw [exists_entryValue_some_iff, List.length_set, List.length_append, List.length_singleton]
      exact ⟨fun hlength ↦ ⟨hsome, Or.inr (Nat.le_of_lt_succ hlength)⟩,
        fun hsplits ↦ Nat.lt_succ_of_le (hsplits.2.resolve_left hbody)⟩

theorem head?_replicate_append_iff (n : ℕ) {rest : List Byte}
    (hrest : ∀ byte ∈ rest.head?, byte ≠ semicolon) :
    (List.replicate n semicolon ++ rest).head? ≠ some semicolon ↔ n = 0 := by
  cases n with
  | zero => exact iff_of_true (fun hhead ↦ hrest semicolon hhead rfl) rfl
  | succ n => exact iff_of_false (fun hhead ↦ hhead rfl) (Nat.succ_ne_zero n)

/-- The first token of a type that can be split is at its start if the type does not start with a
semicolon. -/
theorem offset1_eq_zero_iff {type : List Byte} (hzero : (0 : Byte) ∉ type)
    (hsplits : SplitsWell type) :
    (entryTokens type).offset1 = some 0 ↔ type.head? ≠ some semicolon := by
  cases tokenShape semicolon type with
  | separators n =>
    refine absurd ?_ hsplits.1
    simp [firstText]
  | @last n token hsep htoken =>
    have htext : (0 : Byte) ∉ token := fun hmem ↦ hzero (List.mem_append_right _ hmem)
    have hhead := head?_ne_of_notMem hsep [] htoken
    rw [List.append_nil] at hhead
    rw [entryTokens_of_last n htext hsep htoken, head?_replicate_append_iff n hhead,
      Option.some_inj]
  | @token n token more hsep htoken =>
    obtain ⟨htext, hmore⟩ := notMem_of_notMem_token hzero
    have hhead := head?_ne_of_notMem hsep (semicolon :: more) htoken
    rw [(entryTokens_of_token n htext hmore hsep htoken).1, List.append_assoc,
      head?_replicate_append_iff n hhead, Option.some_inj]

theorem exists_mapM_iff (types : List (List Byte)) :
    (∃ values, types.mapM (entryOutcome arith strtof) = .ok values) ↔
      ∀ type ∈ types, ∃ value, entryOutcome arith strtof type = .ok value := by
  induction types with
  | nil => exact iff_of_true ⟨[], rfl⟩ (fun _ htype ↦ absurd htype List.not_mem_nil)
  | cons type types ih =>
    rw [List.mapM_cons, List.forall_mem_cons, ← ih]
    cases entryOutcome arith strtof type with
    | error outcome => exact iff_of_false (not_exists_ok _) fun hall ↦ not_exists_ok _ hall.1
    | ok value =>
      cases types.mapM (entryOutcome arith strtof) with
      | error outcome => exact iff_of_false (not_exists_ok _) fun hall ↦ not_exists_ok _ hall.2
      | ok values => exact iff_of_true ⟨_, rfl⟩ ⟨⟨_, rfl⟩, _, rfl⟩

theorem length_of_mapM {types : List (List Byte)} {values : List (ℚ × ExtImage)}
    (hvalues : types.mapM (entryOutcome arith strtof) = .ok values) :
    values.length = types.length := by
  induction types generalizing values with
  | nil =>
    cases hvalues
    rfl
  | cons type types ih =>
    rw [List.mapM_cons] at hvalues
    cases hvalue : entryOutcome arith strtof type with
    | error outcome =>
      rw [hvalue] at hvalues
      cases hvalues
    | ok value =>
      cases hrest : types.mapM (entryOutcome arith strtof) with
      | error outcome =>
        rw [hvalue, hrest] at hvalues
        cases hvalues
      | ok rest =>
        rw [hvalue, hrest] at hvalues
        cases hvalues
        rw [List.length_cons, List.length_cons, ih hrest]

/-- The list that the function comes back with is not empty. -/
theorem ne_nil_of_acceptEnd {acceptLine : List Byte}
    (hparsed : (acceptEnd arith strtof acceptLine).1 = .parsed) :
    (acceptEnd arith strtof acceptLine).2 ≠ [] := by
  rw [acceptEnd] at hparsed ⊢
  split_ifs at hparsed ⊢ with hnone hfull
  rw [entriesEnd] at hparsed ⊢
  cases hvalues : (keptTypes (untilNul acceptLine)).mapM (entryOutcome arith strtof) with
  | error outcome =>
    rw [hvalues] at hparsed
    exact absurd hparsed (ne_parsed_of_mapM hvalues)
  | ok values =>
    refine List.ne_nil_of_length_pos ?_
    rw [length_of_mapM hvalues]
    exact List.length_pos_of_ne_nil hnone

/-- The function comes back from entries that are all stored when the first token of the last one is
at its start. -/
theorem entriesEnd_eq_parsed_iff (types : List (List Byte)) :
    (entriesEnd arith strtof types).1 = .parsed ↔
      (∀ type ∈ types, ∃ value, entryOutcome arith strtof type = .ok value) ∧
        types.getLast?.bind (fun type ↦ (entryTokens type).offset1) = some 0 := by
  rw [← exists_mapM_iff, entriesEnd]
  cases hvalues : types.mapM (entryOutcome arith strtof) with
  | error outcome =>
    exact iff_of_false (ne_parsed_of_mapM hvalues) fun hall ↦ not_exists_ok _ hall.1
  | ok values =>
    simp only [Except.ok.injEq, exists_eq', true_and]
    split_ifs with hlast
    · exact iff_of_true rfl hlast
    · exact iff_of_false (by decide) hlast

/-- The kept types are parts of the line. -/
theorem zero_notMem_of_mem_keptTypes {text type : List Byte} (hnul : (0 : Byte) ∉ text)
    (htype : type ∈ keptTypes text) : (0 : Byte) ∉ type := by
  exact zero_notMem_of_mem_tokens (by decide) hnul (List.mem_of_mem_filter htype)

/-- The function comes back from exactly the lines that can be split. -/
theorem acceptEnd_eq_parsed_iff (acceptLine : List Byte) :
    (acceptEnd arith strtof acceptLine).1 = .parsed ↔ LineSplitsWell acceptLine := by
  have hzero : ∀ type ∈ keptTypes (untilNul acceptLine), (0 : Byte) ∉ type :=
    fun type ↦ zero_notMem_of_mem_keptTypes (zero_notMem_untilNul acceptLine)
  rw [acceptEnd]
  split_ifs with hnone hfull
  · exact iff_of_false (by decide) fun hline ↦ hline.some_kept hnone
  · exact iff_of_false (by decide) fun hline ↦ absurd hline.room (Nat.not_lt.mpr hfull)
  · rw [entriesEnd_eq_parsed_iff]
    obtain ⟨last, hlast⟩ := Option.ne_none_iff_exists'.mp
      (fun h ↦ hnone (List.getLast?_eq_none_iff.mp h))
    have hmem := List.mem_of_getLast? hlast
    rw [hlast, Option.bind_some]
    constructor
    · rintro ⟨hall, hstart⟩
      have hsplits : ∀ type ∈ keptTypes (untilNul acceptLine), SplitsWell type :=
        fun type htype ↦ (exists_entryOutcome_iff (hzero type htype)).mp (hall type htype)
      refine ⟨hnone, Nat.lt_of_not_le hfull, hsplits, fun type htype ↦ ?_⟩
      rw [hlast, Option.mem_some] at htype
      rw [← htype]
      exact (offset1_eq_zero_iff (hzero last hmem) (hsplits last hmem)).mp hstart
    · intro hline
      refine ⟨fun type htype ↦ (exists_entryOutcome_iff (hzero type htype)).mpr
        (hline.splits type htype), ?_⟩
      exact (offset1_eq_zero_iff (hzero last hmem) (hline.splits last hmem)).mpr
        (hline.starts last hlast)

end Entries

/-- The function comes back with a first entry if and only if the line keeps one to three types,
each of which can be split, and the last of which does not start with a semicolon. -/
theorem parsesSafely_iff (arith : Arithmetic) (strtof : List Byte → ℚ × Bool)
    (acceptLine : List Byte) :
    ParsesSafely arith strtof acceptLine ↔ LineSplitsWell acceptLine := by
  have hends := @endsWith_acceptEnd arith strtof acceptLine
  rw [← @acceptEnd_eq_parsed_iff arith strtof]
  constructor
  · rintro ⟨calls, hplace, -⟩
    have hthis : EndsWith arith strtof acceptLine (.parsed,
        (getListAcceptImage arith strtof acceptLine calls).parse.bufImList.map nodeValue) :=
      ⟨calls, hplace, fun _ ↦ rfl⟩
    exact (eq_of_endsWith hends hthis).1
  · intro hparsed
    obtain ⟨calls, hplace, hnodes⟩ := hends
    refine ⟨calls, hparsed ▸ hplace, fun hempty ↦ ne_nil_of_acceptEnd hparsed ?_⟩
    rw [← hnodes hparsed, hempty, List.map_nil]

/-- Lines from which the function does not come back with a list: one that keeps no type, one that
keeps four, one with a type of semicolons only, and one whose last type starts with a semicolon. -/
theorem not_parsesSafely :
    (¬ ∀ (arith : Arithmetic) (strtof : List Byte → ℚ × Bool) (acceptLine : List Byte),
      ParsesSafely arith strtof acceptLine) ∧
      (getListAcceptImage ieee decimalPrefix (bytes "text/html") 2).parse.place = .ended .aborted ∧
      (getListAcceptImage ieee decimalPrefix (bytes "image/png,image/jpg,image/webp,image/jxr")
        5).parse.place = .ended .outOfBounds ∧
      (getListAcceptImage ieee decimalPrefix (bytes ";") 4).parse.place = .ended .nullToken ∧
      (getListAcceptImage ieee decimalPrefix (bytes "*/*,;image/png") 7).parse.place =
        .ended .invalidFree := by
  refine ⟨fun hsafe ↦ ?_, by decide +kernel, by decide +kernel, by decide +kernel,
    by decide +kernel⟩
  obtain ⟨calls, hplace, -⟩ := hsafe ieee decimalPrefix (bytes "text/html")
  have hparsed : EndsWith ieee decimalPrefix (bytes "text/html") (.parsed, _) :=
    ⟨calls, hplace, fun _ ↦ rfl⟩
  have haborted : EndsWith ieee decimalPrefix (bytes "text/html") (.aborted, []) :=
    ⟨2, by decide +kernel, nofun⟩
  exact nomatch (eq_of_endsWith hparsed haborted).1

end ImageApp.Requests
