import ImageApp.Foundations.CStrings

/-!
# Splitting a string in place

`strtok` of `string.h` for one separator. A call starts at an offset of a region that holds a C
string: the argument of the function, or the position that the latest call has saved. It passes over
separators, ends the token by a NUL, and saves the position behind it. The saved position is a part
of the result here, because the caller decides where it is kept.

`TokenShape` says what the text in front of a call can look like, and there is one lemma about
`strtok` for each shape. `tokens` are the tokens that a series of calls returns.
-/

set_option autoImplicit false
set_option relaxedAutoImplicit false

namespace ImageApp.Foundations.Tokens

open CStrings

/-- What a call of `strtok` leaves: the region, the offset that it saves, and the offset of the
token that it returns. -/
structure TokenCall where
  region : List Byte
  saved : ℕ
  token : Option ℕ
  deriving DecidableEq

/-- A call of `strtok` that starts at an offset of the region. -/
def strtok (sep : Byte) (region : List Byte) (start : ℕ) : TokenCall :=
  let text := untilNul (region.drop start)
  let first := start + (text.takeWhile (· = sep)).length
  let token := (text.dropWhile (· = sep)).takeWhile (· ≠ sep)
  let behind := first + token.length
  if token = [] then ⟨region, behind, none⟩
  else if behind = start + text.length then ⟨region, behind, some first⟩
  else ⟨region.set behind 0, behind + 1, some first⟩

/-! ### What a call finds -/

/-- Text in front of a call: separators only, or separators and a last token, or separators and a
token with a separator behind it. -/
inductive TokenShape (sep : Byte) : List Byte → Prop
  | separators (n : ℕ) : TokenShape sep (List.replicate n sep)
  | last (n : ℕ) {token : List Byte} (hsep : sep ∉ token) (htoken : token ≠ []) :
    TokenShape sep (List.replicate n sep ++ token)
  | token (n : ℕ) {token : List Byte} (more : List Byte) (hsep : sep ∉ token)
    (htoken : token ≠ []) : TokenShape sep (List.replicate n sep ++ token ++ sep :: more)

/-- Text begins with separators and then a byte that is none, if it has one. -/
theorem exists_replicate_append (sep : Byte) (text : List Byte) :
    ∃ n rest, text = List.replicate n sep ++ rest ∧ ∀ byte ∈ rest.head?, byte ≠ sep := by
  induction text with
  | nil => exact ⟨0, [], rfl, nofun⟩
  | cons byte text ih =>
    by_cases hbyte : byte = sep
    · obtain ⟨n, rest, htext, hrest⟩ := ih
      exact ⟨n + 1, rest, by rw [htext, hbyte, List.replicate_succ, List.cons_append], hrest⟩
    · exact ⟨0, byte :: text, rfl, fun other hother ↦ by
        rw [List.head?_cons, Option.mem_some] at hother
        rwa [← hother]⟩

/-- Every text has one of the shapes. -/
theorem tokenShape (sep : Byte) (text : List Byte) : TokenShape sep text := by
  obtain ⟨n, rest, htext, hrest⟩ := exists_replicate_append sep text
  rw [htext]
  rcases eq_or_ne rest [] with hnone | htoken
  · rw [hnone, List.append_nil]
    exact .separators n
  · by_cases hsep : sep ∈ rest
    · obtain ⟨token, more, hmore, hfirst⟩ := List.eq_append_cons_of_mem hsep
      rw [hmore, ← List.append_assoc]
      refine .token n more hfirst fun hempty ↦ ?_
      rw [hmore, hempty] at hrest
      exact hrest sep rfl rfl
    · exact .last n hsep htoken

section Calls

variable {sep : Byte}

theorem takeWhile_replicate_append (n : ℕ) {rest : List Byte}
    (hrest : ∀ byte ∈ rest.head?, byte ≠ sep) :
    (List.replicate n sep ++ rest).takeWhile (· = sep) = List.replicate n sep := by
  rw [List.takeWhile_append_of_pos (by simp)]
  cases rest with
  | nil => simp
  | cons byte rest =>
    have hbyte : byte ≠ sep := hrest byte rfl
    simp [hbyte]

theorem dropWhile_replicate_append (n : ℕ) {rest : List Byte}
    (hrest : ∀ byte ∈ rest.head?, byte ≠ sep) :
    (List.replicate n sep ++ rest).dropWhile (· = sep) = rest := by
  rw [List.dropWhile_append_of_pos (by simp)]
  cases rest with
  | nil => rfl
  | cons byte rest =>
    have hbyte : byte ≠ sep := hrest byte rfl
    simp [hbyte]

/-- A token does not begin with a separator. -/
theorem head?_ne_of_notMem {token : List Byte} (hsep : sep ∉ token) (more : List Byte)
    (htoken : token ≠ []) : ∀ byte ∈ (token ++ more).head?, byte ≠ sep := by
  cases token with
  | nil => exact absurd rfl htoken
  | cons first token =>
    intro byte hbyte heq
    rw [List.cons_append, List.head?_cons, Option.mem_some] at hbyte
    rw [← heq, ← hbyte] at hsep
    exact hsep List.mem_cons_self

/-- A call in front of separators finds no token. -/
theorem strtok_of_separators (hnul : sep ≠ 0) (front behind : List Byte) (n : ℕ) :
    strtok sep (front ++ List.replicate n sep ++ 0 :: behind) front.length =
      ⟨front ++ List.replicate n sep ++ 0 :: behind, front.length + n, none⟩ := by
  have hzero : (0 : Byte) ∉ List.replicate n sep :=
    fun hmem ↦ hnul (List.eq_of_mem_replicate hmem).symm
  have htake := @takeWhile_replicate_append sep n [] nofun
  have hdrop := @dropWhile_replicate_append sep n [] nofun
  rw [List.append_nil] at htake hdrop
  rw [strtok, List.append_assoc, List.drop_left, untilNul_append_zero hzero]
  simp [htake, hdrop]

/-- A call in front of the last token finds it, and saves the position of the NUL behind it. -/
theorem strtok_of_last (hnul : sep ≠ 0) (front behind : List Byte) (n : ℕ) {token : List Byte}
    (hzero : (0 : Byte) ∉ token) (hsep : sep ∉ token) (htoken : token ≠ []) :
    strtok sep (front ++ (List.replicate n sep ++ token) ++ 0 :: behind) front.length =
      ⟨front ++ (List.replicate n sep ++ token) ++ 0 :: behind, front.length + n + token.length,
        some (front.length + n)⟩ := by
  have htext : (0 : Byte) ∉ List.replicate n sep ++ token := by
    rw [List.mem_append, not_or]
    exact ⟨fun hmem ↦ hnul (List.eq_of_mem_replicate hmem).symm, hzero⟩
  have hhead := head?_ne_of_notMem hsep [] htoken
  rw [List.append_nil] at hhead
  have hall : token.takeWhile (· ≠ sep) = token := by
    have happend := takeWhile_ne_append hsep []
    rwa [List.append_nil, List.takeWhile_nil, List.append_nil] at happend
  rw [strtok, List.append_assoc, List.drop_left, untilNul_append_zero htext,
    takeWhile_replicate_append n hhead, dropWhile_replicate_append n hhead, hall]
  simp [htoken, Nat.add_assoc]

/-- A call in front of a token with a separator behind it finds it, ends it by a NUL in place of the
separator, and saves the position behind it. -/
theorem strtok_of_token (hnul : sep ≠ 0) (front behind : List Byte) (n : ℕ)
    {token more : List Byte} (hzero : (0 : Byte) ∉ token) (hmore : (0 : Byte) ∉ more)
    (hsep : sep ∉ token) (htoken : token ≠ []) :
    strtok sep (front ++ (List.replicate n sep ++ token ++ sep :: more) ++ 0 :: behind)
        front.length =
      ⟨front ++ (List.replicate n sep ++ token ++ 0 :: more) ++ 0 :: behind,
        front.length + n + token.length + 1, some (front.length + n)⟩ := by
  have htext : (0 : Byte) ∉ List.replicate n sep ++ (token ++ sep :: more) := by
    simp only [List.mem_append, List.mem_cons, not_or]
    exact ⟨fun hmem ↦ hnul (List.eq_of_mem_replicate hmem).symm, hzero, hnul.symm, hmore⟩
  have hhead := head?_ne_of_notMem hsep (sep :: more) htoken
  have hset : (front ++ (List.replicate n sep ++ (token ++ sep :: (more ++ 0 :: behind)))).set
      (front.length + n + token.length) 0 =
      front ++ (List.replicate n sep ++ (token ++ 0 :: (more ++ 0 :: behind))) := by
    simp [Nat.add_assoc]
  have hinner : front.length + n + token.length ≠
      front.length + (List.replicate n sep ++ (token ++ sep :: more)).length := by
    simp only [List.length_append, List.length_replicate, List.length_cons]
    omega
  rw [strtok, List.append_assoc front, List.append_assoc (List.replicate n sep), List.drop_left,
    untilNul_append_zero htext, takeWhile_replicate_append n hhead,
    dropWhile_replicate_append n hhead, takeWhile_ne_append_cons hsep]
  simp only [List.length_replicate, if_neg htoken, if_neg hinner, hset, List.append_assoc,
    List.cons_append]

/-! ### Tokens -/

/-- The tokens of a text, which are not empty. -/
def tokens (sep : Byte) (text : List Byte) : List (List Byte) :=
  (text.splitOn sep).filter (· ≠ [])

theorem tokens_append_cons (sep : Byte) (first second : List Byte) :
    tokens sep (first ++ sep :: second) = tokens sep first ++ tokens sep second := by
  rw [tokens, List.splitOn_append_cons_self, List.filter_append, ← tokens, ← tokens]

theorem tokens_of_notMem {text : List Byte} (hsep : sep ∉ text) (htext : text ≠ []) :
    tokens sep text = [text] := by
  simp [tokens, List.splitOn_eq_singleton hsep, htext]

@[simp] theorem tokens_nil (sep : Byte) : tokens sep [] = [] := rfl

theorem tokens_replicate_append (sep : Byte) (n : ℕ) (text : List Byte) :
    tokens sep (List.replicate n sep ++ text) = tokens sep text := by
  induction n with
  | zero => rfl
  | succ n ih =>
    rw [List.replicate_succ, List.cons_append, ← ih]
    exact tokens_append_cons sep [] _

/-- Separators have no tokens. -/
theorem tokens_replicate (sep : Byte) (n : ℕ) : tokens sep (List.replicate n sep) = [] := by
  rw [← List.append_nil (List.replicate n sep), tokens_replicate_append, tokens_nil]

theorem tokens_last (n : ℕ) {token : List Byte} (hsep : sep ∉ token) (htoken : token ≠ []) :
    tokens sep (List.replicate n sep ++ token) = [token] := by
  rw [tokens_replicate_append, tokens_of_notMem hsep htoken]

theorem tokens_token (n : ℕ) {token : List Byte} (more : List Byte) (hsep : sep ∉ token)
    (htoken : token ≠ []) :
    tokens sep (List.replicate n sep ++ token ++ sep :: more) = token :: tokens sep more := by
  rw [tokens_append_cons, tokens_last n hsep htoken, List.singleton_append]

/-- A byte that a text does not contain is neither in its first token nor behind it. -/
theorem notMem_of_notMem_token {byte : Byte} {n : ℕ} {token more : List Byte}
    (hbyte : byte ∉ List.replicate n sep ++ token ++ sep :: more) : byte ∉ token ∧ byte ∉ more := by
  simp only [List.mem_append, List.mem_cons, not_or] at hbyte
  exact ⟨hbyte.1.2, hbyte.2.2⟩

/-- A call finds a token if there is one, and leaves the text behind it for the next call. -/
theorem strtok_cases (hnul : sep ≠ 0) (front behind : List Byte) {text : List Byte}
    (hzero : (0 : Byte) ∉ text) :
    (∃ n, text = List.replicate n sep) ∨
      ∃ token front' text' offset rest,
        strtok sep (front ++ text ++ 0 :: behind) front.length =
            ⟨front' ++ text' ++ 0 :: behind, front'.length, some offset⟩ ∧
          (front' ++ text' ++ 0 :: behind).drop offset = token ++ 0 :: rest ∧
          (0 : Byte) ∉ token ∧ (0 : Byte) ∉ text' ∧ text'.length < text.length ∧
          tokens sep text = token :: tokens sep text' := by
  cases tokenShape sep text with
  | separators n => exact Or.inl ⟨n, rfl⟩
  | @last n token hsep htoken =>
    have htext : (0 : Byte) ∉ token := fun hmem ↦ hzero (List.mem_append_right _ hmem)
    have hpos := List.length_pos_of_ne_nil htoken
    refine Or.inr ⟨token, front ++ (List.replicate n sep ++ token), [], front.length + n, behind,
      ?_, ?_, htext, List.not_mem_nil, ?_, tokens_last n hsep htoken⟩
    · rw [strtok_of_last hnul front behind n htext hsep htoken]
      simp [Nat.add_assoc]
    · have hsplit : front ++ (List.replicate n sep ++ token) ++ [] ++ 0 :: behind =
          front ++ List.replicate n sep ++ (token ++ 0 :: behind) := by simp
      rw [hsplit]
      exact List.drop_left' (by simp)
    · simp only [List.length_append, List.length_nil]
      omega
  | @token n token more hsep htoken =>
    obtain ⟨htext, hmore⟩ := notMem_of_notMem_token hzero
    refine Or.inr ⟨token, front ++ (List.replicate n sep ++ token) ++ [0], more, front.length + n,
      more ++ 0 :: behind, ?_, ?_, htext, hmore, ?_, tokens_token n more hsep htoken⟩
    · rw [strtok_of_token hnul front behind n htext hmore hsep htoken]
      simp [Nat.add_assoc]
    · have hsplit : front ++ (List.replicate n sep ++ token) ++ [0] ++ more ++ 0 :: behind =
          front ++ List.replicate n sep ++ (token ++ 0 :: (more ++ 0 :: behind)) := by simp
      rw [hsplit]
      exact List.drop_left' (by simp)
    · simp only [List.length_append, List.length_cons]
      omega

/-- Tokens are parts of the text. -/
theorem zero_notMem_of_mem_tokens (hnul : sep ≠ 0) {text token : List Byte}
    (hzero : (0 : Byte) ∉ text) (htoken : token ∈ tokens sep text) : (0 : Byte) ∉ token := by
  induction hsize : text.length using Nat.strong_induction_on generalizing text with
  | _ size ih =>
    rcases strtok_cases hnul [] [] hzero with
      ⟨n, htext⟩ | ⟨first, -, text', -, -, -, -, hfirst, htext', hless, htokens⟩
    · rw [htext, tokens_replicate] at htoken
      exact absurd htoken List.not_mem_nil
    · rw [htokens, List.mem_cons] at htoken
      rcases htoken with rfl | hmem
      · exact hfirst
      · exact ih _ (hsize ▸ hless) htext' hmem rfl

end Calls

/-! ### Patterns in a text with a separator -/

section Patterns

variable {α : Type*} {sep : α}

/-- A pattern without the separator lies on one side of it. -/
theorem infix_append_cons_iff {pattern first second : List α} (hsep : sep ∉ pattern) :
    pattern <:+: first ++ sep :: second ↔ pattern <:+: first ∨ pattern <:+: second := by
  constructor
  · rintro ⟨front, behind, htext⟩
    rcases List.append_eq_append_iff.mp htext with ⟨gap, hfirst, -⟩ | ⟨gap, hfront, hsecond⟩
    · exact Or.inl ⟨front, gap, hfirst.symm⟩
    · rcases gap with _ | ⟨symbol, gap⟩
      · rw [List.append_nil] at hfront
        exact Or.inl ⟨front, [], by rw [hfront, List.append_nil]⟩
      · obtain ⟨rfl, hrest⟩ := List.cons.inj hsecond
        rcases List.append_eq_append_iff.mp hfront with ⟨more, -, hpattern⟩ | ⟨more, -, hmore⟩
        · rw [hpattern] at hsep
          exact absurd (List.mem_append_right _ List.mem_cons_self) hsep
        · rcases more with _ | ⟨other, more⟩
          · rw [← List.nil_append pattern, ← hmore] at hsep
            exact absurd List.mem_cons_self hsep
          · obtain ⟨-, hgap⟩ := List.cons.inj hmore
            refine Or.inr ⟨more, behind, ?_⟩
            rw [hrest, hgap]
            rfl
  · rintro (hfirst | hsecond)
    · exact hfirst.trans (List.prefix_append _ _).isInfix
    · exact hsecond.trans ((List.suffix_cons _ _).trans (List.suffix_append _ _)).isInfix

/-- A pattern with the separator in it lies around the only one of a text. -/
theorem infix_around_iff {before behind first second : List α} (hfirst : sep ∉ first)
    (hsecond : sep ∉ second) :
    before ++ sep :: behind <:+: first ++ sep :: second ↔ before <:+ first ∧ behind <+: second := by
  constructor
  · rintro ⟨front, rest, htext⟩
    rw [← List.append_assoc, List.append_assoc, List.cons_append] at htext
    obtain ⟨hbefore, -, hbehind⟩ :=
      (List.append_cons_inj_of_notMem hfirst hsecond).mp htext.symm
    exact ⟨⟨front, hbefore.symm⟩, ⟨rest, hbehind.symm⟩⟩
  · rintro ⟨⟨front, rfl⟩, ⟨rest, rfl⟩⟩
    exact ⟨front, rest, by simp⟩

end Patterns

end ImageApp.Foundations.Tokens
