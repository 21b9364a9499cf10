import ImageApp.Server.AcceptList
import Mathlib.Logic.Function.Iterate

/-!
# What an Accept line is split into

`get_list_accept_image` on its own, for every line. The first loop keeps the tokens between commas
that do not look like text or applications (`keptTypes`), and the second one makes a quality and a
format of each of them, or ends the function there (`entryOutcome`). `acceptEnd` puts the two
together, and `getListAcceptImage_ends` says that the function ends in this way.

Both loops are followed call by call: `exists_types` is an induction on what is left of the line,
whose front is full of the NULs of the calls before, and `exists_entries` one on the entries that
are left.
-/

set_option autoImplicit false
set_option relaxedAutoImplicit false

namespace ImageApp.Requests

open Foundations.CStrings Foundations.Tokens Server Server.AcceptParse

/-! ### The entries of a line -/

/-- A token that the first loop leaves out. -/
def Discarded (type : List Byte) : Prop :=
  (strstr type (bytes "text")).isSome ∨ (strstr type (bytes "application")).isSome

instance decidableDiscarded (type : List Byte) : Decidable (Discarded type) :=
  inferInstanceAs (Decidable (_ ∨ _))

/-- The tokens that the first loop keeps. -/
def keptTypes (acceptLine : List Byte) : List (List Byte) :=
  (tokens comma acceptLine).filter fun type ↦ ¬ Discarded type

/-- An entry whose type has just been copied. -/
def newNode (type : List Byte) : ImageNode :=
  ⟨some (type ++ [0]), 0, .jpg⟩

/-- The quality and the format of an entry. -/
def nodeValue (node : ImageNode) : ℚ × ExtImage :=
  (node.q, node.extension)

/-- The two calls of `strtok` for a type: the offset of `token1`, and the regions from `token1` and
`token2` on. -/
structure EntryTokens where
  region : List Byte
  offset1 : Option ℕ
  token1 : Option (List Byte)
  token2 : Option (List Byte)
  deriving DecidableEq

/-- The tokens of a type. -/
def entryTokens (type : List Byte) : EntryTokens :=
  let first := strtok semicolon (type ++ [0]) 0
  let second := strtok semicolon first.region first.saved
  { region := second.region
    offset1 := first.token
    token1 := first.token.map fun offset ↦ second.region.drop offset
    token2 := second.token.map fun offset ↦ second.region.drop offset }

section Outcome

variable (arith : Arithmetic) (strtof : List Byte → ℚ × Bool)

/-- The quality and the format that the second loop stores in a new entry, or how it ends. -/
def entryValue (token1 token2 : Option (List Byte)) : Except AcceptOutcome (ℚ × ExtImage) :=
  match token1, token2 with
  | none, none => .error .nullToken
  | none, some token2 =>
    if (readQuality strtof token2).isSome then .error .nullToken else .error .outOfBounds
  | some token1, none =>
    let text := untilNul token1
    if (strstr text (bytes "image/")).isSome then
      if text = bytes "image/*" then .ok (1, .allExt) else .ok (1, plainExtension text .jpg)
    else if (strstr text (bytes "*/*")).isSome then .ok (0, .allExt)
    else .ok (0, lastExtension text .jpg)
  | some token1, some token2 =>
    let text := untilNul token1
    match readQuality strtof token2 with
    | none => .error .outOfBounds
    | some (q, error) =>
      if (strstr text (bytes "*/*")).isSome then
        .ok (if q = 0 then fallbackQuality arith else q, .allExt)
      else .ok (if error then fallbackQuality arith else q, lastExtension text .jpg)

/-- What becomes of a type. -/
def entryOutcome (type : List Byte) : Except AcceptOutcome (ℚ × ExtImage) :=
  entryValue arith strtof (entryTokens type).token1 (entryTokens type).token2

/-- How the function ends when it has kept the given types, and the entries of its list. -/
def entriesEnd (types : List (List Byte)) : AcceptOutcome × List (ℚ × ExtImage) :=
  match types.mapM (entryOutcome arith strtof) with
  | .error outcome => (outcome, [])
  | .ok values =>
    (if types.getLast?.bind (fun type ↦ (entryTokens type).offset1) = some 0 then .parsed
      else .invalidFree, values)

/-- How the function ends on a line, and the entries of its list. -/
def acceptEnd (acceptLine : List Byte) : AcceptOutcome × List (ℚ × ExtImage) :=
  let types := keptTypes (untilNul acceptLine)
  if types = [] then (.aborted, [])
  else if acceptPreallocation ≤ types.length then (.outOfBounds, [])
  else entriesEnd arith strtof types

end Outcome

/-- The function ends on a line with an outcome and with the qualities and formats of its list. -/
def EndsWith (arith : Arithmetic) (strtof : List Byte → ℚ × Bool) (acceptLine : List Byte)
    (result : AcceptOutcome × List (ℚ × ExtImage)) : Prop :=
  ∃ calls, (getListAcceptImage arith strtof acceptLine calls).parse.place = .ended result.1 ∧
    (result.1 = .parsed →
      (getListAcceptImage arith strtof acceptLine calls).parse.bufImList.map nodeValue = result.2)

/-! ### The tokens of an entry -/

/-- A type of semicolons only has no token. -/
theorem entryTokens_of_separators (n : ℕ) :
    (entryTokens (List.replicate n semicolon)).token1 = none ∧
      (entryTokens (List.replicate n semicolon)).token2 = none := by
  have hfirst := @strtok_of_separators semicolon (by decide) [] [] n
  have hsecond := @strtok_of_separators semicolon (by decide) (List.replicate n semicolon) [] 0
  simp only [List.nil_append, List.length_nil, Nat.zero_add] at hfirst
  simp only [List.replicate_zero, List.append_nil, List.length_replicate, Nat.add_zero] at hsecond
  simp only [entryTokens, hfirst, hsecond, Option.map_none, and_self]

/-- A type without a semicolon behind its first token. -/
theorem entryTokens_of_last (n : ℕ) {token : List Byte} (hzero : (0 : Byte) ∉ token)
    (hsep : semicolon ∉ token) (htoken : token ≠ []) :
    entryTokens (List.replicate n semicolon ++ token) =
      ⟨List.replicate n semicolon ++ token ++ [0], some n, some (token ++ [0]), none⟩ := by
  have hfirst := @strtok_of_last semicolon (by decide) [] [] n token hzero hsep htoken
  have hsecond := @strtok_of_separators semicolon (by decide) (List.replicate n semicolon ++ token)
    [] 0
  simp only [List.nil_append, List.length_nil, Nat.zero_add] at hfirst
  simp only [List.replicate_zero, List.append_nil, List.length_append, List.length_replicate,
    Nat.add_zero] at hsecond
  have hdrop : (List.replicate n semicolon ++ token ++ [0]).drop n = token ++ [0] := by
    rw [List.append_assoc]
    exact List.drop_left' (List.length_replicate ..)
  simp only [entryTokens, hfirst, hsecond, Option.map_none, Option.map_some, hdrop]

/-- What a second call finds in the rest of a type: the region from the second token on, whose first
semicolon is made a NUL. -/
def secondToken (more : List Byte) : Option (List Byte) :=
  let body := more.dropWhile (· = semicolon)
  if body = [] then none
  else some ((body ++ [0]).set (body.takeWhile (· ≠ semicolon)).length 0)

theorem secondToken_of_separators (n : ℕ) : secondToken (List.replicate n semicolon) = none := by
  have hdrop := @dropWhile_replicate_append semicolon n [] nofun
  rw [List.append_nil] at hdrop
  rw [secondToken, hdrop]
  rfl

theorem secondToken_of_last (n : ℕ) {token : List Byte} (hsep : semicolon ∉ token)
    (htoken : token ≠ []) :
    secondToken (List.replicate n semicolon ++ token) = some (token ++ [0]) := by
  have hhead := head?_ne_of_notMem hsep [] htoken
  have htake := takeWhile_ne_append hsep []
  rw [List.append_nil] at hhead htake
  simp only [secondToken, dropWhile_replicate_append n hhead, if_neg htoken, htake]
  simp

theorem secondToken_of_token (n : ℕ) {token : List Byte} (more : List Byte)
    (hsep : semicolon ∉ token) (htoken : token ≠ []) :
    secondToken (List.replicate n semicolon ++ (token ++ semicolon :: more)) =
      some (token ++ 0 :: (more ++ [0])) := by
  have hhead := head?_ne_of_notMem hsep (semicolon :: more) htoken
  have hbody : token ++ semicolon :: more ≠ [] := by simp
  simp only [secondToken, dropWhile_replicate_append n hhead, if_neg hbody,
    takeWhile_ne_append_cons hsep]
  simp

/-- A second call leaves what is in front of the rest of the type. -/
theorem strtok_secondToken (front : List Byte) {more : List Byte} (hmore : (0 : Byte) ∉ more) :
    (∃ rest, (strtok semicolon (front ++ more ++ [0]) front.length).region = front ++ rest) ∧
      (strtok semicolon (front ++ more ++ [0]) front.length).token.map
        (fun offset ↦ (strtok semicolon (front ++ more ++ [0]) front.length).region.drop offset) =
        secondToken more := by
  have hnul : semicolon ≠ 0 := by decide
  cases tokenShape semicolon more with
  | separators n =>
    rw [strtok_of_separators hnul front [] n, secondToken_of_separators]
    exact ⟨⟨_, List.append_assoc _ _ _⟩, rfl⟩
  | @last n token hsep htoken =>
    have hzero : (0 : Byte) ∉ token := fun hmem ↦ hmore (List.mem_append_right _ hmem)
    rw [strtok_of_last hnul front [] n hzero hsep htoken, secondToken_of_last n hsep htoken]
    refine ⟨⟨_, List.append_assoc _ _ _⟩, ?_⟩
    have hsplit : front ++ (List.replicate n semicolon ++ token) ++ [0] =
        front ++ List.replicate n semicolon ++ (token ++ [0]) := by simp
    rw [Option.map_some, hsplit]
    exact congrArg some (List.drop_left' (by simp))
  | @token n token others hsep htoken =>
    obtain ⟨hzero, hothers⟩ := notMem_of_notMem_token hmore
    have hsecond := secondToken_of_token n others hsep htoken
    rw [← List.append_assoc] at hsecond
    rw [strtok_of_token hnul front [] n hzero hothers hsep htoken, hsecond]
    refine ⟨⟨_, List.append_assoc _ _ _⟩, ?_⟩
    have hsplit : front ++ (List.replicate n semicolon ++ token ++ 0 :: others) ++ [0] =
        front ++ List.replicate n semicolon ++ (token ++ 0 :: (others ++ [0])) := by simp
    rw [Option.map_some, hsplit]
    exact congrArg some (List.drop_left' (by simp))

/-- A type with a semicolon behind its first token. -/
theorem entryTokens_of_token (n : ℕ) {token more : List Byte} (hzero : (0 : Byte) ∉ token)
    (hmore : (0 : Byte) ∉ more) (hsep : semicolon ∉ token) (htoken : token ≠ []) :
    (entryTokens (List.replicate n semicolon ++ token ++ semicolon :: more)).offset1 = some n ∧
      (∃ rest, (entryTokens (List.replicate n semicolon ++ token ++ semicolon :: more)).token1 =
        some (token ++ 0 :: rest)) ∧
      (entryTokens (List.replicate n semicolon ++ token ++ semicolon :: more)).token2 =
        secondToken more := by
  have hfirst := @strtok_of_token semicolon (by decide) [] [] n token more hzero hmore hsep htoken
  simp only [List.nil_append, List.length_nil, Nat.zero_add] at hfirst
  have hregion : List.replicate n semicolon ++ token ++ 0 :: more ++ [0] =
      List.replicate n semicolon ++ token ++ [0] ++ more ++ [0] := by simp
  have hlength : (List.replicate n semicolon ++ token ++ [0]).length = n + token.length + 1 := by
    simp [Nat.add_assoc]
  rw [hregion, ← hlength] at hfirst
  obtain ⟨⟨rest, hrest⟩, hsecond⟩ :=
    strtok_secondToken (List.replicate n semicolon ++ token ++ [0]) hmore
  refine ⟨by rw [entryTokens, hfirst], ⟨rest, ?_⟩, ?_⟩
  · have hsplit : List.replicate n semicolon ++ token ++ [0] ++ rest =
        List.replicate n semicolon ++ (token ++ 0 :: rest) := by simp
    simp only [entryTokens, hfirst, hrest, Option.map_some, hsplit]
    exact congrArg some (List.drop_left' (List.length_replicate ..))
  · simp only [entryTokens, hfirst]
    exact hsecond

/-! ### The first loop -/

section Run

variable {arith : Arithmetic} {strtof : List Byte → ℚ × Bool}

theorem storeType_of_discarded {parse : AcceptParse} {token1 : List Byte}
    (hdiscarded : Discarded (untilNul token1)) :
    parse.storeType (some token1) = { parse with place := .nextType } :=
  if_pos hdiscarded

theorem storeType_of_kept {parse : AcceptParse} {token1 : List Byte}
    (hkept : ¬ Discarded (untilNul token1)) (hholds : parse.holds parse.bufImList.length) :
    parse.storeType (some token1) =
      { parse with
        bufImList := parse.bufImList ++ [newNode (untilNul token1)]
        allocated :=
          if parse.bufImList.length + 1 = acceptPreallocation then
            acceptPreallocation + acceptPreallocation
          else parse.allocated
        place := .nextType } :=
  (if_neg hkept).trans (if_pos hholds)

theorem storeType_of_full {parse : AcceptParse} {token1 : List Byte}
    (hkept : ¬ Discarded (untilNul token1)) (hfull : ¬ parse.holds parse.bufImList.length) :
    parse.storeType (some token1) = { parse with place := .ended .outOfBounds } :=
  (if_neg hkept).trans (if_neg hfull)

/-- The allocation of the list after some entries were stored. -/
def allocatedFor (entries : ℕ) : ℕ :=
  if entries = acceptPreallocation then acceptPreallocation + acceptPreallocation
  else acceptPreallocation * sizeofImageNode

/-- The function in front of a call of its first loop: `front` is what the calls have passed over,
`text` what is left of the line, and the types are those that were kept. -/
structure AtTypes (s : AcceptCall) (front text behind : List Byte) (types : List (List Byte)) :
    Prop where
  start : s.parse.place = .line ∧ front = [] ∨
    s.parse.place = .nextType ∧ s.saved = (.acceptLine, front.length)
  acceptLine : s.parse.acceptLine = front ++ text ++ 0 :: behind
  bufImList : s.parse.bufImList = types.map newNode
  allocated : s.parse.allocated = allocatedFor types.length
  room : types.length ≤ acceptPreallocation

/-- The variables in front of the second loop. -/
def typesParse (acceptLine : List Byte) (types : List (List Byte)) : AcceptParse where
  acceptLine := acceptLine
  bufImList := types.map newNode
  allocated := allocatedFor types.length
  place := .nextType

/-- A line starts with the string that is split. -/
theorem exists_eq_untilNul_append (acceptLine : List Byte) :
    ∃ behind, acceptLine ++ [0] = untilNul acceptLine ++ 0 :: behind := by
  by_cases hnul : (0 : Byte) ∈ acceptLine
  · obtain ⟨text, rest, hline, htext⟩ := List.eq_append_cons_of_mem hnul
    refine ⟨rest ++ [0], ?_⟩
    rw [hline, untilNul_append_zero htext, List.append_assoc, List.cons_append]
  · exact ⟨[], by rw [untilNul_of_notMem hnul]⟩

theorem exists_atTypes_start (acceptLine : List Byte) : ∃ behind,
    AtTypes ⟨startAcceptParse acceptLine, (.acceptLine, 0)⟩ [] (untilNul acceptLine) behind [] := by
  obtain ⟨behind, hbehind⟩ := exists_eq_untilNul_append acceptLine
  exact ⟨behind, Or.inl ⟨rfl, rfl⟩, hbehind, rfl, rfl, Nat.zero_le _⟩

/-- A call of the first loop starts behind what the calls before have passed over. -/
theorem acceptCall_of_atTypes {s : AcceptCall} {front text behind : List Byte}
    {types : List (List Byte)} (hstate : AtTypes s front text behind types) :
    acceptCall arith strtof s =
      (let call := strtok comma (front ++ text ++ 0 :: behind) front.length
      ⟨({ s.parse with acceptLine := call.region } : AcceptParse).storeType
        (call.token.map fun offset ↦ call.region.drop offset), (.acceptLine, call.saved)⟩) := by
  rcases hstate.start with ⟨hplace, hfront⟩ | ⟨hplace, hsaved⟩
  · have hline := hstate.acceptLine
    simp only [hfront, List.nil_append] at hline ⊢
    simp only [acceptCall, nextCall, hplace, region, hline, setRegion, resume, Option.map_some,
      Option.getD_some, Option.map_map, List.length_nil]
    rfl
  · simp only [acceptCall, nextCall, hplace, hsaved, region, hstate.acceptLine, setRegion, resume,
      Option.map_none, Option.getD_none, Option.map_map]
    rfl

/-- The end of the first loop. -/
theorem parse_of_separators {s : AcceptCall} {front behind : List Byte} {n : ℕ}
    {types : List (List Byte)} (hstate : AtTypes s front (List.replicate n comma) behind types) :
    (acceptCall arith strtof s).parse =
      (typesParse (front ++ List.replicate n comma ++ 0 :: behind) types).enterEntry 0 := by
  have hcall := @strtok_of_separators comma (by decide) front behind n
  rw [acceptCall_of_atTypes hstate]
  simp only [hcall, Option.map_none, storeType, enterEntry, typesParse, hstate.bufImList,
    hstate.allocated, holds, finish]
  rcases types with _ | ⟨type, types⟩
  · rfl
  · rfl

/-- A token that the first loop finds is left out or kept, if there is room for it. -/
theorem atTypes_of_token {s : AcceptCall} {front text front' text' behind token rest : List Byte}
    {types : List (List Byte)} {offset : ℕ} (hstate : AtTypes s front text behind types)
    (hcall : strtok comma (front ++ text ++ 0 :: behind) front.length =
      ⟨front' ++ text' ++ 0 :: behind, front'.length, some offset⟩)
    (htoken : (front' ++ text' ++ 0 :: behind).drop offset = token ++ 0 :: rest)
    (hzero : (0 : Byte) ∉ token) :
    if Discarded token then AtTypes (acceptCall arith strtof s) front' text' behind types
    else if types.length < acceptPreallocation then
      AtTypes (acceptCall arith strtof s) front' text' behind (types ++ [token])
    else (acceptCall arith strtof s).parse.place = .ended .outOfBounds := by
  have huntil := untilNul_append_zero hzero rest
  have hholds : ({ s.parse with acceptLine := front' ++ text' ++ 0 :: behind } : AcceptParse).holds
      types.length ↔ types.length < acceptPreallocation := by
    by_cases hfull : types.length = acceptPreallocation
    · simp only [holds, hstate.allocated, allocatedFor, hfull]
      decide
    · have hless : types.length < acceptPreallocation := Nat.lt_of_le_of_ne hstate.room hfull
      simp only [holds, hstate.allocated, allocatedFor, if_neg hfull, decide_eq_true_eq]
      rw [acceptPreallocation] at hless ⊢
      rw [sizeofImageNode]
      omega
  have hlength : s.parse.bufImList.length = types.length := by
    rw [hstate.bufImList, List.length_map]
  rw [acceptCall_of_atTypes hstate, hcall]
  simp only [Option.map_some, htoken]
  split_ifs with hdiscarded hroom
  · rw [storeType_of_discarded (by rwa [huntil])]
    exact ⟨Or.inr ⟨rfl, rfl⟩, rfl, hstate.bufImList, hstate.allocated, hstate.room⟩
  · rw [storeType_of_kept (by rwa [huntil]) (by rwa [hlength, hholds])]
    refine ⟨Or.inr ⟨rfl, rfl⟩, rfl, ?_, ?_, ?_⟩
    · simp only [huntil, hstate.bufImList, List.map_append, List.map_cons, List.map_nil]
    · have hnot : ¬ types.length = acceptPreallocation := Nat.ne_of_lt hroom
      simp only [hlength, hstate.allocated, allocatedFor, if_neg hnot, List.length_append,
        List.length_singleton]
    · rw [List.length_append]
      exact hroom
  · rw [storeType_of_full (by rwa [huntil]) (by rwa [hlength, hholds])]

theorem keptTypes_cons {text text' token : List Byte}
    (htokens : tokens comma text = token :: tokens comma text') :
    keptTypes text = if Discarded token then keptTypes text' else token :: keptTypes text' := by
  rw [keptTypes, htokens]
  split_ifs with hdiscarded
  · rw [List.filter_cons_of_neg (by simpa using hdiscarded), ← keptTypes]
  · rw [List.filter_cons_of_pos (by simpa using hdiscarded), ← keptTypes]

/-- The first loop from some call on: it ends in front of the second loop with the types that were
kept and those that still are, or because they do not fit. -/
theorem exists_types {s : AcceptCall} {front text behind : List Byte} {types : List (List Byte)}
    (hstate : AtTypes s front text behind types) (hnul : (0 : Byte) ∉ text) :
    ((types ++ keptTypes text).length ≤ acceptPreallocation → ∃ calls line,
        ((acceptCall arith strtof)^[calls] s).parse =
          (typesParse line (types ++ keptTypes text)).enterEntry 0) ∧
      (acceptPreallocation < (types ++ keptTypes text).length → ∃ calls,
        ((acceptCall arith strtof)^[calls] s).parse.place = .ended .outOfBounds) := by
  induction hsize : text.length using Nat.strong_induction_on generalizing s front text types with
  | _ size ih =>
    rcases @strtok_cases comma (by decide) front behind _ hnul with
      ⟨n, htext⟩ | ⟨token, front', text', offset, rest, hcall, htoken, hzero, hnul', hless, htokens⟩
    · have hnone : keptTypes text = [] := by
        rw [keptTypes, htext, tokens_replicate, List.filter_nil]
      rw [hnone, List.append_nil]
      subst htext
      refine ⟨fun _ ↦ ⟨1, _, parse_of_separators hstate⟩, fun hfull ↦ ?_⟩
      exact absurd hfull (Nat.not_lt.mpr hstate.room)
    · have hnext := @atTypes_of_token arith strtof _ _ _ _ _ _ _ _ _ _ hstate hcall htoken hzero
      rw [keptTypes_cons htokens]
      split_ifs at hnext ⊢ with hdiscarded hroom
      · obtain ⟨hfits, hfull⟩ := ih _ (hsize ▸ hless) hnext hnul' rfl
        exact ⟨fun hall ↦ (hfits hall).imp' Nat.succ fun _ ↦ id,
          fun hall ↦ (hfull hall).imp' Nat.succ fun _ ↦ id⟩
      · obtain ⟨hfits, hfull⟩ := ih _ (hsize ▸ hless) hnext hnul' rfl
        rw [List.append_assoc, List.singleton_append] at hfits hfull
        exact ⟨fun hall ↦ (hfits hall).imp' Nat.succ fun _ ↦ id,
          fun hall ↦ (hfull hall).imp' Nat.succ fun _ ↦ id⟩
      · refine ⟨fun hall ↦ ?_, fun _ ↦ ⟨1, hnext⟩⟩
        simp only [List.length_append, List.length_cons] at hall
        omega

/-! ### The second loop -/

/-- The function in front of the first call for an entry: the nodes in front of it are done, and the
types are those of the entries from it on. -/
structure AtEntry (s : AcceptCall) (done : List ImageNode) (types : List (List Byte)) : Prop where
  place : s.parse.place = .entry done.length
  bufImList : s.parse.bufImList = done ++ types.map newNode
  allocated : s.parse.allocated = acceptPreallocation * sizeofImageNode

/-- The variables behind the two calls for an entry. -/
def entryParse (s : AcceptCall) (done : List ImageNode) (type : List Byte)
    (rest : List (List Byte)) : AcceptParse :=
  { s.parse with
    bufImList := done ++ ⟨some (entryTokens type).region, 0, .jpg⟩ :: rest.map newNode
    place := .parameter done.length (entryTokens type).offset1 }

theorem modify_append_cons {α : Type*} (front : List α) (a : α) (rest : List α) (f : α → α) :
    (front ++ a :: rest).modify front.length f = front ++ f a :: rest := by
  induction front with
  | nil => rfl
  | cons b front ih =>
    rw [List.cons_append, List.length_cons, List.modify_succ_cons, ih, List.cons_append]

/-- A change that a function does not see. -/
theorem map_modify_of_eq {α β : Type*} {f : α → β} {g : α → α} (hsame : ∀ a, f (g a) = f a)
    (list : List α) (i : ℕ) : (list.modify i g).map f = list.map f := by
  induction list generalizing i with
  | nil => simp
  | cons a list ih =>
    cases i with
    | zero => simp [hsame]
    | succ i => simp [ih]

theorem region_type {parse : AcceptParse} {done rest : List ImageNode} {type : List Byte} {q : ℚ}
    {extension : ExtImage} (hnodes : parse.bufImList = done ++ ⟨some type, q, extension⟩ :: rest) :
    parse.region (.type done.length) = type := by
  simp [region, hnodes]

theorem setRegion_type {parse : AcceptParse} {done rest : List ImageNode} {type : List Byte} {q : ℚ}
    {extension : ExtImage} (hnodes : parse.bufImList = done ++ ⟨some type, q, extension⟩ :: rest)
    (content : List Byte) :
    parse.setRegion (.type done.length) content =
      { parse with bufImList := done ++ ⟨some content, q, extension⟩ :: rest } := by
  simp only [setRegion, hnodes, modify_append_cons, Option.map_some]

/-- The first call for an entry starts at its type. -/
theorem acceptCall_of_entry {s : AcceptCall} {done : List ImageNode} {type : List Byte}
    {rest : List (List Byte)} (hstate : AtEntry s done (type :: rest)) :
    acceptCall arith strtof s =
      (let call := strtok semicolon (type ++ [0]) 0
      ⟨{ s.parse with
          bufImList := done ++ ⟨some call.region, 0, .jpg⟩ :: rest.map newNode
          place := .parameter done.length call.token }, (.type done.length, call.saved)⟩) := by
  have hnodes : s.parse.bufImList = done ++ ⟨some (type ++ [0]), 0, .jpg⟩ :: rest.map newNode :=
    hstate.bufImList
  simp only [acceptCall, nextCall, hstate.place, Option.map_some, Option.getD_some,
    region_type hnodes, setRegion_type hnodes, resume, Option.map_map]
  congr
  exact Option.map_id'

/-- The second call goes on in the type, and the entry is made of the two tokens. -/
theorem parse_of_parameter {s : AcceptCall} {done rest : List ImageNode} {type : List Byte} {q : ℚ}
    {extension : ExtImage} {token1 : Option ℕ} {offset : ℕ}
    (hplace : s.parse.place = .parameter done.length token1)
    (hsaved : s.saved = (.type done.length, offset))
    (hnodes : s.parse.bufImList = done ++ ⟨some type, q, extension⟩ :: rest) :
    (acceptCall arith strtof s).parse =
      (let call := strtok semicolon type offset
      ({ s.parse with
        bufImList := done ++ ⟨some call.region, q, extension⟩ :: rest } : AcceptParse).parseEntry
        arith strtof done.length (token1.map fun offset ↦ call.region.drop offset)
        (call.token.map fun offset ↦ call.region.drop offset)) := by
  simp only [acceptCall, nextCall, hplace, hsaved, Option.map_none, Option.getD_none,
    region_type hnodes, setRegion_type hnodes, resume, Option.map_map]
  have hregion : (⟨s.parse.acceptLine,
      done ++ ⟨some (strtok semicolon type offset).region, q, extension⟩ :: rest,
      s.parse.allocated, .parameter done.length token1⟩ : AcceptParse).region
        (.type done.length) = (strtok semicolon type offset).region := region_type rfl
  rw [hregion]
  rfl

/-- The two calls for an entry. -/
theorem parse_of_entry {s : AcceptCall} {done : List ImageNode} {type : List Byte}
    {rest : List (List Byte)} (hstate : AtEntry s done (type :: rest)) :
    (acceptCall arith strtof (acceptCall arith strtof s)).parse =
      (entryParse s done type rest).parseEntry arith strtof done.length (entryTokens type).token1
        (entryTokens type).token2 := by
  rw [acceptCall_of_entry hstate]
  exact parse_of_parameter rfl rfl rfl

/-- The stores into a new entry. -/
theorem storeEntry_append_cons {parse : AcceptParse} {done rest : List ImageNode} {node : ImageNode}
    (hnodes : parse.bufImList = done ++ node :: rest) (store : ImageNode → ImageNode) :
    parse.storeEntry done.length store =
      ({ parse with bufImList := done ++ store node :: rest } : AcceptParse).enterEntry
        (done.length + 1) := by
  rw [storeEntry, hnodes, modify_append_cons]

/-- What the second loop makes of a new entry. -/
theorem parseEntry_eq {parse : AcceptParse} {done rest : List ImageNode} {type : Option (List Byte)}
    (hnodes : parse.bufImList = done ++ ⟨type, 0, .jpg⟩ :: rest)
    (token1 token2 : Option (List Byte)) :
    parse.parseEntry arith strtof done.length token1 token2 =
      match entryValue arith strtof token1 token2 with
      | .error outcome => { parse with place := .ended outcome }
      | .ok (q, extension) =>
        ({ parse with bufImList := done ++ ⟨type, q, extension⟩ :: rest } : AcceptParse).enterEntry
          (done.length + 1) := by
  cases token1 with
  | none =>
    cases token2 with
    | none => rfl
    | some token2 =>
      simp only [parseEntry, parseLast, entryValue]
      cases readQuality strtof token2 with
      | none => rfl
      | some quality => rfl
  | some token1 =>
    cases token2 with
    | none =>
      simp only [parseEntry, parseAllTypes, parseLast, entryValue, and_true,
        storeEntry_append_cons hnodes]
      split_ifs <;> rfl
    | some token2 =>
      simp only [parseEntry, parseAllTypes, parseLast, entryValue, reduceCtorEq, and_false,
        if_false]
      cases hquality : readQuality strtof token2 with
      | none =>
        split_ifs <;> rfl
      | some quality =>
        simp only [Option.map_some, storeEntry_append_cons hnodes]
        split_ifs <;> rfl

/-- What the second loop makes of the next entry. -/
theorem parseEntry_entryParse (s : AcceptCall) (done : List ImageNode) (type : List Byte)
    (rest : List (List Byte)) (token1 token2 : Option (List Byte)) :
    (entryParse s done type rest).parseEntry arith strtof done.length token1 token2 =
      match entryValue arith strtof token1 token2 with
      | .error outcome => { entryParse s done type rest with place := .ended outcome }
      | .ok (q, extension) =>
        ({ entryParse s done type rest with
          bufImList := done ++ ⟨some (entryTokens type).region, q, extension⟩ ::
            rest.map newNode } : AcceptParse).enterEntry (done.length + 1) :=
  parseEntry_eq rfl token1 token2

/-- The test for an entry that there is. -/
theorem enterEntry_of_lt {parse : AcceptParse} {i : ℕ} (hi : i < parse.bufImList.length)
    (hsmall : i < acceptPreallocation)
    (halloc : parse.allocated = acceptPreallocation * sizeofImageNode) :
    parse.enterEntry i = { parse with place := .entry i } := by
  have hholds : parse.holds i = true := by
    rw [holds, halloc, decide_eq_true_iff]
    rw [acceptPreallocation] at hsmall ⊢
    rw [sizeofImageNode]
    omega
  rw [enterEntry, if_pos hi, if_pos hholds]

/-- The end of the function behind an entry whose first token starts at the given offset. -/
theorem enterEntry_of_eq {parse : AcceptParse} {i j : ℕ} {token1 : Option ℕ}
    {outcome : AcceptOutcome} (hplace : parse.place = .parameter j token1)
    (hi : parse.bufImList.length = i) (hpos : 0 < i) (htoken : token1 ≠ none)
    (houtcome : outcome = if token1 = some 0 then .parsed else .invalidFree) :
    (parse.enterEntry i).place = .ended outcome ∧
      (parse.enterEntry i).bufImList.map nodeValue = parse.bufImList.map nodeValue := by
  have hnodes : parse.bufImList ≠ [] := List.ne_nil_of_length_pos (hi ▸ hpos)
  rw [enterEntry, if_neg (by omega), finish, if_neg hnodes, hplace, houtcome]
  rcases token1 with _ | _ | offset
  · exact absurd rfl htoken
  · exact ⟨rfl, map_modify_of_eq (f := nodeValue) (g := fun node ↦ { node with type := none })
      (fun _ ↦ rfl) _ _⟩
  · exact ⟨rfl, rfl⟩

/-- An entry has a first token if there is something to store in it. -/
theorem offset1_ne_none {type : List Byte} {value : ℚ × ExtImage}
    (hvalue : entryOutcome arith strtof type = .ok value) : (entryTokens type).offset1 ≠ none := by
  intro hnone
  have htoken : (entryTokens type).token1 = none := by
    rw [show (entryTokens type).token1 = (entryTokens type).offset1.map _ from rfl, hnone]
    rfl
  rw [entryOutcome, htoken] at hvalue
  cases htoken2 : (entryTokens type).token2 with
  | none =>
    rw [htoken2] at hvalue
    cases hvalue
  | some token2 =>
    rw [htoken2] at hvalue
    simp only [entryValue] at hvalue
    split_ifs at hvalue

/-- An entry that ends the function does not let it come back. -/
theorem ne_parsed_of_entryOutcome {type : List Byte} {outcome : AcceptOutcome}
    (herror : entryOutcome arith strtof type = .error outcome) : outcome ≠ .parsed := by
  rintro rfl
  rw [entryOutcome] at herror
  cases htoken1 : (entryTokens type).token1 with
  | none =>
    cases htoken2 : (entryTokens type).token2 with
    | none =>
      rw [htoken1, htoken2] at herror
      cases herror
    | some token2 =>
      rw [htoken1, htoken2] at herror
      simp only [entryValue] at herror
      split_ifs at herror <;> cases herror
  | some token1 =>
    cases htoken2 : (entryTokens type).token2 with
    | none =>
      rw [htoken1, htoken2] at herror
      simp only [entryValue] at herror
      split_ifs at herror
    | some token2 =>
      rw [htoken1, htoken2] at herror
      simp only [entryValue] at herror
      cases hquality : readQuality strtof token2 with
      | none =>
        rw [hquality] at herror
        cases herror
      | some quality =>
        rw [hquality] at herror
        simp only at herror
        split_ifs at herror

theorem ne_parsed_of_mapM {types : List (List Byte)} {outcome : AcceptOutcome}
    (herror : types.mapM (entryOutcome arith strtof) = .error outcome) : outcome ≠ .parsed := by
  induction types with
  | nil => cases herror
  | cons type types ih =>
    rw [List.mapM_cons] at herror
    cases hvalue : entryOutcome arith strtof type with
    | error first =>
      rw [hvalue] at herror
      cases herror
      exact ne_parsed_of_entryOutcome hvalue
    | ok value =>
      rw [hvalue] at herror
      cases hrest : types.mapM (entryOutcome arith strtof) with
      | error other =>
        rw [hrest] at herror
        cases herror
        exact ih hrest
      | ok values =>
        rw [hrest] at herror
        cases herror

theorem entriesEnd_of_error {type : List Byte} {outcome : AcceptOutcome}
    (herror : entryOutcome arith strtof type = .error outcome) (rest : List (List Byte)) :
    entriesEnd arith strtof (type :: rest) = (outcome, []) := by
  rw [entriesEnd, List.mapM_cons, herror]
  rfl

/-- The last entry. -/
theorem entriesEnd_singleton {type : List Byte} {value : ℚ × ExtImage}
    (hvalue : entryOutcome arith strtof type = .ok value) :
    entriesEnd arith strtof [type] =
      (if (entryTokens type).offset1 = some 0 then .parsed else .invalidFree, [value]) := by
  rw [entriesEnd, List.mapM_cons, hvalue]
  rfl

/-- An entry in front of others. -/
theorem entriesEnd_of_ok {type next : List Byte} {value : ℚ × ExtImage}
    (hvalue : entryOutcome arith strtof type = .ok value) (rest : List (List Byte)) :
    (entriesEnd arith strtof (type :: next :: rest)).1 =
        (entriesEnd arith strtof (next :: rest)).1 ∧
      ((entriesEnd arith strtof (next :: rest)).1 = .parsed →
        (entriesEnd arith strtof (type :: next :: rest)).2 =
          value :: (entriesEnd arith strtof (next :: rest)).2) := by
  have hlast : (type :: next :: rest).getLast? = (next :: rest).getLast? := by
    rw [List.getLast?_cons_cons]
  rw [entriesEnd, List.mapM_cons, hvalue, hlast, entriesEnd]
  cases hrest : (next :: rest).mapM (entryOutcome arith strtof) with
  | error outcome => exact ⟨rfl, fun hparsed ↦ absurd hparsed (ne_parsed_of_mapM hrest)⟩
  | ok values => exact ⟨rfl, fun _ ↦ rfl⟩

/-- The second loop ends at an entry that it rejects. -/
theorem exists_entries_of_error {rest : List (List Byte)} {s : AcceptCall}
    {done : List ImageNode} {type : List Byte} {outcome : AcceptOutcome}
    (hstate : AtEntry s done (type :: rest))
    (herror : entryOutcome arith strtof type = .error outcome) :
    ∃ calls, ((acceptCall arith strtof)^[calls] s).parse.place =
        .ended (entriesEnd arith strtof (type :: rest)).1 ∧
      ((entriesEnd arith strtof (type :: rest)).1 = .parsed →
        ((acceptCall arith strtof)^[calls] s).parse.bufImList.map nodeValue =
          done.map nodeValue ++ (entriesEnd arith strtof (type :: rest)).2) := by
  refine ⟨2, ?_⟩
  rw [Function.iterate_succ_apply, Function.iterate_one, parse_of_entry hstate,
    parseEntry_entryParse, ← entryOutcome, herror, entriesEnd_of_error herror]
  exact ⟨rfl, fun hparsed ↦ absurd hparsed (ne_parsed_of_entryOutcome herror)⟩

/-- The second loop from some entry on. The induction is on the entries that are left. -/
theorem exists_entries {rest : List (List Byte)} {s : AcceptCall} {done : List ImageNode}
    {type : List Byte} (hstate : AtEntry s done (type :: rest))
    (hroom : done.length + rest.length + 1 < acceptPreallocation) :
    ∃ calls, ((acceptCall arith strtof)^[calls] s).parse.place =
        .ended (entriesEnd arith strtof (type :: rest)).1 ∧
      ((entriesEnd arith strtof (type :: rest)).1 = .parsed →
        ((acceptCall arith strtof)^[calls] s).parse.bufImList.map nodeValue =
          done.map nodeValue ++ (entriesEnd arith strtof (type :: rest)).2) := by
  induction rest generalizing s done type with
  | nil =>
    cases hvalue : entryOutcome arith strtof type with
    | error outcome => exact exists_entries_of_error hstate hvalue
    | ok value =>
      refine ⟨2, ?_⟩
      rw [Function.iterate_succ_apply, Function.iterate_one, parse_of_entry hstate,
        parseEntry_entryParse, ← entryOutcome, hvalue, entriesEnd_singleton hvalue]
      set parse : AcceptParse := { entryParse s done type [] with
        bufImList := done ++ [⟨some (entryTokens type).region, value.1, value.2⟩] } with hparse
      have hlength : parse.bufImList.length = done.length + 1 := by
        rw [hparse, List.length_append, List.length_singleton]
      obtain ⟨hplace, hnodes⟩ := @enterEntry_of_eq parse _ _ _ _ rfl hlength (Nat.succ_pos _)
        (offset1_ne_none hvalue) rfl
      refine ⟨hplace, fun _ ↦ hnodes.trans ?_⟩
      rw [hparse, List.map_append]
      rfl
  | cons next rest ih =>
    cases hvalue : entryOutcome arith strtof type with
    | error outcome => exact exists_entries_of_error hstate hvalue
    | ok value =>
      have hcalls := @parse_of_entry arith strtof _ _ _ _ hstate
      rw [parseEntry_entryParse, ← entryOutcome, hvalue] at hcalls
      simp only at hcalls
      rw [enterEntry_of_lt] at hcalls
      · have hnext : AtEntry (acceptCall arith strtof (acceptCall arith strtof s))
            (done ++ [⟨some (entryTokens type).region, value.1, value.2⟩]) (next :: rest) := by
          refine ⟨?_, ?_, ?_⟩
          · rw [hcalls, List.length_append, List.length_singleton]
          · rw [hcalls, List.append_assoc]
            rfl
          · rw [hcalls]
            exact hstate.allocated
        obtain ⟨calls, hplace, hnodes⟩ := ih hnext (by simp at hroom ⊢; omega)
        obtain ⟨hsame, hvalues⟩ := @entriesEnd_of_ok arith strtof _ next _ hvalue rest
        refine ⟨calls + 2, ?_⟩
        rw [Function.iterate_add_apply, hsame]
        refine ⟨hplace, fun hparsed ↦ ?_⟩
        rw [hvalues hparsed]
        refine (hnodes hparsed).trans ?_
        rw [List.map_append, List.append_assoc]
        rfl
      · simp
      · simp at hroom
        omega
      · exact hstate.allocated

/-! ### The whole function -/

/-- Behind its end the function makes no calls. -/
theorem iterate_of_ended {s : AcceptCall} {outcome : AcceptOutcome}
    (hended : s.parse.place = .ended outcome) (calls : ℕ) :
    (acceptCall arith strtof)^[calls] s = s := by
  have hstays : acceptCall arith strtof s = s := by rw [acceptCall, nextCall, hended]
  exact Function.iterate_fixed hstays calls

/-- The first loop is left in front of the first entry. -/
theorem atEntry_of_types {s : AcceptCall} {line type : List Byte} {rest : List (List Byte)}
    (hparse : s.parse = (typesParse line (type :: rest)).enterEntry 0)
    (hroom : rest.length + 1 < acceptPreallocation) : AtEntry s [] (type :: rest) := by
  have halloc : (typesParse line (type :: rest)).allocated =
      acceptPreallocation * sizeofImageNode := by
    rw [typesParse, allocatedFor, if_neg]
    exact Nat.ne_of_lt hroom
  rw [enterEntry_of_lt (Nat.succ_pos _) (by decide) halloc] at hparse
  refine ⟨?_, ?_, ?_⟩
  · rw [hparse]
    rfl
  · rw [hparse]
    rfl
  · rw [hparse]
    exact halloc

/-- The first loop is left with a list that does not hold its first entry. -/
theorem place_of_full {line : List Byte} {types : List (List Byte)}
    (hfull : types.length = acceptPreallocation) :
    ((typesParse line types).enterEntry 0).place = .ended .outOfBounds := by
  have hsome : 0 < (typesParse line types).bufImList.length := by
    rw [typesParse, List.length_map, hfull]
    decide
  have hholds : ¬ (typesParse line types).holds 0 = true := by
    rw [holds, typesParse, allocatedFor, if_pos hfull]
    simp only [decide_eq_true_eq]
    decide
  rw [enterEntry, if_pos hsome, if_neg hholds]

/-- The function comes to an end on every line. -/
theorem endsWith_acceptEnd (acceptLine : List Byte) :
    EndsWith arith strtof acceptLine (acceptEnd arith strtof acceptLine) := by
  obtain ⟨behind, hstart⟩ := exists_atTypes_start acceptLine
  obtain ⟨hfits, hfull⟩ :=
    @exists_types arith strtof _ _ _ _ _ hstart (zero_notMem_untilNul acceptLine)
  rw [List.nil_append] at hfits hfull
  rw [acceptEnd]
  rcases htypes : keptTypes (untilNul acceptLine) with _ | ⟨type, rest⟩
  · rw [htypes] at hfits
    obtain ⟨calls, line, hparse⟩ := hfits (Nat.zero_le _)
    exact ⟨calls, congrArg AcceptParse.place hparse, nofun⟩
  · rw [htypes] at hfits hfull
    simp only [reduceCtorEq, if_false]
    rcases Nat.lt_trichotomy (type :: rest).length acceptPreallocation with hless | heq | hmore
    · obtain ⟨calls, line, hparse⟩ := hfits hless.le
      obtain ⟨more, hplace, hnodes⟩ :=
        exists_entries (atEntry_of_types hparse hless) (by simpa using hless)
      rw [if_neg (Nat.not_le.mpr hless)]
      refine ⟨more + calls, ?_, fun hparsed ↦ ?_⟩
      · rw [getListAcceptImage, Function.iterate_add_apply]
        exact hplace
      · rw [getListAcceptImage, Function.iterate_add_apply]
        exact hnodes hparsed
    · obtain ⟨calls, line, hparse⟩ := hfits heq.le
      rw [if_pos heq.ge]
      exact ⟨calls, (congrArg AcceptParse.place hparse).trans (place_of_full heq), nofun⟩
    · obtain ⟨calls, hplace⟩ := hfull hmore
      rw [if_pos hmore.le]
      exact ⟨calls, hplace, nofun⟩

/-- It comes to one end only. -/
theorem eq_of_endsWith {acceptLine : List Byte}
    {first second : AcceptOutcome × List (ℚ × ExtImage)}
    (hfirst : EndsWith arith strtof acceptLine first)
    (hsecond : EndsWith arith strtof acceptLine second) :
    first.1 = second.1 ∧ (first.1 = .parsed → first.2 = second.2) := by
  obtain ⟨calls, hplace, hnodes⟩ := hfirst
  obtain ⟨others, hplace', hnodes'⟩ := hsecond
  have hsame : getListAcceptImage arith strtof acceptLine calls =
      getListAcceptImage arith strtof acceptLine others := by
    have hlater := @iterate_of_ended arith strtof _ _ hplace others
    have hlater' := @iterate_of_ended arith strtof _ _ hplace' calls
    rw [getListAcceptImage, ← Function.iterate_add_apply] at hlater hlater'
    rw [getListAcceptImage, getListAcceptImage, ← hlater, ← hlater', Nat.add_comm]
  rw [hsame] at hplace hnodes
  have houtcome : first.1 = second.1 := by
    rw [hplace'] at hplace
    exact (AcceptPlace.ended.inj hplace).symm
  exact ⟨houtcome, fun hparsed ↦ (hnodes hparsed).symm.trans (hnodes' (houtcome ▸ hparsed))⟩

end Run

end ImageApp.Requests
