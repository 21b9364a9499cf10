import ImageApp.Server.Senders

/-!
# A header in pieces

The loops that send the headers go on behind what was sent, but ask for the length of all of the
text again. `sendsHeader_iff` says that a header is sent as it should be exactly when the first call
of `send` accepts all of it: the call after a partial one goes beyond the end of the text, and what
it may send there stands between the header and the body.
-/

set_option autoImplicit false
set_option relaxedAutoImplicit false

namespace ImageApp.Responses

open Foundations.CStrings Foundations.Extents Foundations.HeaderBlocks Server Server.Senders

/-- Calls of `send` that do not fail: one accepts at least one byte and not more than it is asked
for. -/
def PartialSends (send : Write) : Prop :=
  ∀ call start count, ∃ v, send call start count = .accepted v ∧ v ≤ count ∧ (0 < count → 1 ≤ v)

/-- The loop of a sender puts a text that stands at the start of `msg` on the connection. `rest` is
what is behind the NUL of the text. -/
structure SendsHeader (send : Write) (text rest : List Byte) : Prop where
  /-- No byte outside the text is asked for. -/
  inside : ∀ k s, sendHeader send (text ++ 0 :: rest) text.length k = .running s →
    s.sent < text.length →
    Inside text.length (extent s.sent (untilNul (text ++ 0 :: rest)).length)
  /-- The loop ends without an error, and then every byte of the text was sent, once and in
  order. -/
  exact : ∃ k s, sendHeader send (text ++ 0 :: rest) text.length k = .ended s false ∧
    s.written = extent 0 text.length

/-! ### The text of a header -/

/-- `build_message` writes no NUL in front of its end. -/
theorem zero_notMem_buildMessage (fileSize : ℕ) (image : Bool) (msgError : List Byte) :
    (0 : Byte) ∉ buildMessage fileSize image msgError := by
  have hsize := zero_notMem_untilNul (convertLongToString fileSize)
  rw [buildMessage]
  split_ifs
  · simp only [List.mem_append, not_or, hsize, not_false_eq_true, and_true]
    decide
  · simp only [List.mem_append, not_or, hsize, not_false_eq_true, and_true]
    decide
  · exact List.not_mem_nil

/-! ### The loop -/

theorem sendHeader_one {send : Write} {text rest : List Byte} {v : ℕ} (hnul : (0 : Byte) ∉ text)
    (htext : 0 < text.length) (hsend : send 0 0 text.length = .accepted v) :
    sendHeader send (text ++ 0 :: rest) text.length 1 = .running ⟨1, v, extent 0 v⟩ := by
  have hstart : send 0 (0 : ℕ) (untilNul (text ++ 0 :: rest)).length = .accepted v := by
    rw [untilNul_append_zero hnul, Int.natCast_zero, hsend]
  rw [sendHeader_succ_of_running (s := ⟨0, 0, []⟩) rfl, sendHeaderIteration, if_pos htext, hstart]
  simp

/-- A loop that has sent all of the text ends. -/
theorem sendHeader_ended {send : Write} {msg : List Byte} {len k : ℕ} {s : HeaderState}
    (hrunning : sendHeader send msg len k = .running s) (hsent : len ≤ s.sent) :
    sendHeader send msg len (k + 1) = .ended s false := by
  rw [sendHeader_succ_of_running hrunning, sendHeaderIteration, if_neg (Nat.not_lt.mpr hsent)]

/-- The header is sent if the first call accepts all of it. -/
theorem sendsHeader_of_complete {send : Write} {text rest : List Byte} (hnul : (0 : Byte) ∉ text)
    (hcomplete : text = [] ∨ send 0 0 text.length = .accepted text.length) :
    SendsHeader send text rest := by
  rcases Nat.eq_zero_or_pos text.length with hnone | hsome
  · have hended : sendHeader send (text ++ 0 :: rest) text.length 1 = .ended ⟨0, 0, []⟩ false :=
      sendHeader_ended rfl (Nat.le_of_eq hnone)
    refine ⟨fun k s _ hless ↦ by omega, 1, _, hended, ?_⟩
    rw [hnone]
    rfl
  · have hsend := hcomplete.resolve_left (List.ne_nil_of_length_pos hsome)
    have hone := @sendHeader_one send text rest _ hnul hsome hsend
    have hended := sendHeader_ended hone (Nat.le_refl text.length)
    refine ⟨fun k s hrunning hless ↦ ?_, 2, _, hended, rfl⟩
    rw [untilNul_append_zero hnul]
    -- The loop is at its start, or it has sent everything, or it has ended.
    obtain hzero | rfl | ⟨k, rfl⟩ : k = 0 ∨ k = 1 ∨ ∃ more, k = 2 + more := by
      rcases k with _ | _ | k
      · exact Or.inl rfl
      · exact Or.inr (Or.inl rfl)
      · exact Or.inr (Or.inr ⟨k, by omega⟩)
    · subst hzero
      cases hrunning
      exact inside_extent_iff.mpr (Or.inr ⟨le_rfl, by simp⟩)
    · rw [hone] at hrunning
      cases hrunning
      exact absurd hless (Nat.lt_irrefl text.length)
    · rw [sendHeader_add_of_ended hended k] at hrunning
      cases hrunning

/-- The call after a partial one goes beyond the end of the text. -/
theorem complete_of_sendsHeader {send : Write} {text rest : List Byte} (hnul : (0 : Byte) ∉ text)
    (hpieces : PartialSends send) (hsends : SendsHeader send text rest) (htext : 0 < text.length) :
    send 0 0 text.length = .accepted text.length := by
  obtain ⟨v, haccepted, hmost, hleast⟩ := hpieces 0 0 text.length
  have hone := @sendHeader_one send text rest _ hnul htext haccepted
  rcases Nat.lt_or_eq_of_le hmost with hless | hall
  · have hinside := hsends.inside 1 _ hone hless
    rw [untilNul_append_zero hnul, inside_extent_iff] at hinside
    have hmore := hleast htext
    simp only at hinside
    omega
  · rw [haccepted, hall]

/-- The loops send a header as they should if and only if it is empty or the first call of `send`
accepts all of it. -/
theorem sendsHeader_iff {send : Write} (hpieces : PartialSends send) (fileSize : ℕ) (image : Bool)
    (msgError rest : List Byte) :
    SendsHeader send (buildMessage fileSize image msgError) rest ↔
      buildMessage fileSize image msgError = [] ∨
        send 0 0 (buildMessage fileSize image msgError).length =
          .accepted (buildMessage fileSize image msgError).length := by
  have hnul := zero_notMem_buildMessage fileSize image msgError
  refine ⟨fun hsends ↦ ?_, sendsHeader_of_complete hnul⟩
  rcases eq_or_ne (buildMessage fileSize image msgError) [] with hempty | htext
  · exact Or.inl hempty
  · exact Or.inr (complete_of_sendsHeader hnul hpieces hsends (List.length_pos_of_ne_nil htext))

/-- Calls of `send` or `write` that accept what they are asked for. -/
def sendAll : Write :=
  fun _ _ count ↦ .accepted count

/-- With such calls the headers are sent. -/
theorem exists_ended_sendAll (fileSize : ℕ) (image : Bool) (msgError : List Byte) :
    ∃ k s, sendHeader sendAll (buildMessage fileSize image msgError ++ [0])
      (buildMessage fileSize image msgError).length k = .ended s false := by
  have hnul := zero_notMem_buildMessage fileSize image msgError
  obtain ⟨k, s, hended, -⟩ :=
    (@sendsHeader_of_complete sendAll (buildMessage fileSize image msgError) [] hnul
      (Or.inr rfl)).exact
  exact ⟨k, s, hended⟩

/-- Calls of `send` that accept what they are asked for, but the first one not more than the given
number of bytes. -/
def shortFirst (most : ℕ) : Write :=
  fun call _ count ↦ .accepted (if call = 0 then min count most else count)

theorem partialSends_shortFirst {most : ℕ} (hmost : 1 ≤ most) : PartialSends (shortFirst most) := by
  intro call start count
  refine ⟨_, rfl, ?_, fun hcount ↦ ?_⟩
  · split_ifs <;> omega
  · split_ifs <;> omega

/-- The header of an image of one byte, sent at once. -/
theorem sendsHeader_shortFirst :
    PartialSends (shortFirst 512) ∧
      (SendsHeader (shortFirst 512) (buildMessage 1 true []) [] ↔
        buildMessage 1 true [] = [] ∨
          shortFirst 512 0 0 (buildMessage 1 true []).length =
            .accepted (buildMessage 1 true []).length) ∧
      SendsHeader (shortFirst 512) (buildMessage 1 true []) [] := by
  have hpieces : PartialSends (shortFirst 512) := partialSends_shortFirst (by decide)
  have hiff := sendsHeader_iff hpieces 1 true [] []
  exact ⟨hpieces, hiff, hiff.mpr (Or.inr (by decide +kernel))⟩

/-- When one byte was sent alone, the next call sends the rest of the text together with the NUL
behind it. -/
theorem sendHeader_shortFirst {text : List Byte} (hnul : (0 : Byte) ∉ text)
    (htext : 1 < text.length) :
    sendHeader (shortFirst 1) (text ++ [0]) text.length 3 =
      .ended ⟨2, text.length + 1, extent 0 (text.length + 1)⟩ false := by
  have hfirst : shortFirst 1 0 0 text.length = .accepted 1 := by
    rw [shortFirst, if_pos rfl, Nat.min_eq_right htext.le]
  have hone := @sendHeader_one _ _ [] _ hnul (Nat.zero_lt_of_lt htext) hfirst
  have hsecond : shortFirst 1 1 (1 : ℕ) (untilNul (text ++ [0])).length =
      .accepted text.length := by
    rw [untilNul_append_zero hnul, shortFirst, if_neg Nat.one_ne_zero]
  have hpositions := extent_append 0 1 text.length
  rw [Int.zero_add] at hpositions
  have htwo : sendHeader (shortFirst 1) (text ++ [0]) text.length 2 =
      .running ⟨2, text.length + 1, extent 0 (text.length + 1)⟩ := by
    rw [sendHeader_succ_of_running hone, sendHeaderIteration, if_pos htext, hsecond,
      Nat.add_comm text.length, ← hpositions]
  exact sendHeader_ended htwo (Nat.le_succ _)

/-- When the first byte of the header of the page for a bad request was sent alone, the next call
sends the rest together with the NUL behind it. -/
theorem not_sendsHeader :
    (¬ ∀ (send : Write), PartialSends send → ∀ (fileSize : ℕ) (image : Bool)
      (msgError rest : List Byte), SendsHeader send (buildMessage fileSize image msgError) rest) ∧
      ∃ text : List Byte,
        text = buildMessage (htmlResponse.badRequest.length + 1) false htmlResponse.badRequest ∧
        sendHeader (shortFirst 1) (text ++ [0]) text.length 3 =
          .ended ⟨2, text.length + 1, extent 0 (text.length + 1)⟩ false := by
  have hpage := buildMessage_page htmlResponse.badRequest
  rw [untilNul_of_notMem badRequest_text.2] at hpage
  have htext := two_le_length_headerBlock (pageLines (htmlResponse.badRequest.length + 1))
  rw [← hpage] at htext
  refine ⟨fun hsends ↦ ?_, _, rfl,
    sendHeader_shortFirst (zero_notMem_buildMessage _ _ _) htext⟩
  have hpieces : PartialSends (shortFirst 1) := partialSends_shortFirst le_rfl
  have hcomplete := complete_of_sendsHeader (zero_notMem_buildMessage 1 true []) hpieces
    (hsends _ hpieces 1 true [] []) (by decide +kernel)
  exact absurd hcomplete (by decide +kernel)

end ImageApp.Responses
