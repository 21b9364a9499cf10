import ImageApp.Server.BoundedScans
import ImageApp.Server.Reception

/-!
# The headers of a received message

`receive_request` accepts a message in which it finds three header names. The functions that read
the headers ask for more: a copy of 128 bytes from the first `"Accept: "` and one of 256 bytes from
the first `"User-Agent: "`, which is not the name that was looked for, have to lie inside the slot,
and the second copy has to hold a carriage return. `headersInBounds_iff` says that this and a NUL in
the slot is all they need.
-/

set_option autoImplicit false
set_option relaxedAutoImplicit false

namespace ImageApp.Requests

open Foundations.CStrings Server

/-- The message that `receive_request` hands on: the slot with a NUL in its last byte. -/
def handedOn (content : List Byte) : List Byte :=
  content.set (httpMessageSize - 1) 0

/-- What is searched in `receive_request` ends inside the slot, and the three functions stay inside
the slot and their arrays and find their headers. -/
structure HeadersInBounds (content : List Byte) : Prop where
  nul : 0 ∈ content
  commandLine : (boundedCommandLine (handedOn content)).isSome
  acceptLine : (boundedAcceptLine (handedOn content)).isSome
  userAgent : (boundedUserAgent (handedOn content)).isSome

/-- There is a NUL in the slot, the two copies lie inside the slot, and a carriage return is where
the user agent may end. -/
structure HeadersFit (content : List Byte) : Prop where
  nul : 0 ∈ content
  accept : ∀ offset ∈ strstr (untilNul content) (bytes "Accept: "), offset + 128 ≤ httpMessageSize
  userAgent : ∃ offset ∈ strstr (untilNul content) (bytes "User-Agent: "),
    offset + 256 ≤ httpMessageSize ∧ carriageReturn ∈ (content.drop (offset + 12)).take 243

/-! ### The message -/

/-- The last byte of the slot does not matter to a text that ends in front of it. -/
theorem untilNul_handedOn {content : List Byte} (hlength : content.length = httpMessageSize)
    (hnul : 0 ∈ content) : untilNul (handedOn content) = untilNul content := by
  obtain ⟨text, rest, hsplit, hzero⟩ := List.eq_append_cons_of_mem hnul
  have hshort : text.length ≤ httpMessageSize - 1 := by
    rw [← hlength, hsplit, List.length_append, List.length_cons]
    omega
  rw [handedOn, hsplit, List.set_append_right _ _ hshort, untilNul_append_zero hzero]
  cases httpMessageSize - 1 - text.length with
  | zero => rw [List.set_cons_zero, untilNul_append_zero hzero]
  | succ index => rw [List.set_cons_succ, untilNul_append_zero hzero]

theorem length_handedOn {content : List Byte} (hlength : content.length = httpMessageSize) :
    (handedOn content).length = httpMessageSize := by
  rw [handedOn, List.length_set, hlength]

/-- The message is a C string. -/
theorem cstring_handedOn {content : List Byte} (hlength : content.length = httpMessageSize)
    (hnul : 0 ∈ content) : cstring (handedOn content) = some (untilNul content) := by
  have hlast : httpMessageSize - 1 < content.length := by
    rw [hlength]
    decide
  have hmem : 0 ∈ handedOn content := List.mem_set hlast 0
  rw [cstring, if_pos hmem, untilNul_handedOn hlength hnul]

/-- What lies in front of the last byte is handed on as it is. -/
theorem take_drop_handedOn (content : List Byte) {offset count : ℕ}
    (hfront : offset + count < httpMessageSize) :
    ((handedOn content).drop offset).take count = (content.drop offset).take count := by
  have hbehind : ¬ httpMessageSize - 1 < offset := by omega
  rw [handedOn, List.drop_set, if_neg hbehind, List.take_set, List.set_eq_of_length_le]
  rw [List.length_take]
  omega

/-- A header name that was found in the slot is in its text. -/
theorem isSome_accept_of_looksComplete {content : List Byte}
    (hreceived : looksComplete content = some true) :
    (strstr (untilNul content) (bytes "Accept: ")).isSome := by
  unfold looksComplete at hreceived
  split_ifs at hreceived
  · cases hreceived
  · obtain ⟨tmp1, -, hreceived⟩ := Option.bind_eq_some_iff.mp hreceived
    obtain ⟨tmp2, haccept, hreceived⟩ := Option.bind_eq_some_iff.mp hreceived
    obtain ⟨tmp3, -, hall⟩ := Option.map_eq_some_iff.mp hreceived
    unfold searchRegion at haccept
    split_ifs at haccept with hfound
    · exact hfound
    · cases haccept
      simp at hall

/-! ### The three functions -/

theorem isSome_upToReturn (source : List Byte) :
    (upToReturn source).isSome ↔ carriageReturn ∈ source := by
  induction source with
  | nil => simp [upToReturn]
  | cons byte source ih =>
    rw [upToReturn, List.mem_cons]
    by_cases hreturn : byte = carriageReturn
    · simp [hreturn]
    · rw [if_neg hreturn, Option.isSome_map, ih, or_iff_right (Ne.symm hreturn)]

theorem isSome_commandLine_iff {content : List Byte}
    (hlength : content.length = httpMessageSize) :
    (boundedCommandLine (handedOn content)).isSome ↔ carriageReturn ∈ handedOn content := by
  rw [boundedCommandLine_eq (length_handedOn hlength).le, getCommandLine, isSome_upToReturn]

theorem isSome_acceptLine_iff {content : List Byte} (hlength : content.length = httpMessageSize)
    (hnul : 0 ∈ content) :
    (boundedAcceptLine (handedOn content)).isSome ↔
      ∃ offset ∈ strstr (untilNul content) (bytes "Accept: "), offset + 128 ≤ httpMessageSize := by
  rw [boundedAcceptLine_eq, getAcceptLine, cstring_handedOn hlength hnul, Option.bind_some,
    length_handedOn hlength]
  cases strstr (untilNul content) (bytes "Accept: ") with
  | none => simp
  | some offset =>
    rw [Option.bind_some]
    by_cases hfits : offset + 128 ≤ httpMessageSize
    · simp [hfits]
    · simp [hfits]

/-- The bytes of the second copy in which the user agent may end. -/
theorem drop_userAgentCopy {region : List Byte} (hlength : 256 ≤ region.length) :
    ((region.take 256).set 255 0).drop 12 = (region.drop 12).take 243 ++ [0] := by
  have hlast : (region.take 256).set 255 0 = region.take 255 ++ [0] := by
    have hsplit : region.take 256 = region.take 255 ++ [region[255]] :=
      List.take_succ_eq_append_getElem hlength
    have hfront : (region.take 255).length = 255 := by
      rw [List.length_take]
      omega
    rw [hsplit, List.set_append_right _ _ hfront.le, hfront, Nat.sub_self, List.set_cons_zero]
  rw [hlast, List.drop_append_of_le_length, List.drop_take]
  rw [List.length_take]
  omega

theorem isSome_userAgent_iff {content : List Byte} (hlength : content.length = httpMessageSize)
    (hnul : 0 ∈ content) :
    (boundedUserAgent (handedOn content)).isSome ↔
      ∃ offset ∈ strstr (untilNul content) (bytes "User-Agent: "),
        offset + 256 ≤ httpMessageSize ∧
          carriageReturn ∈ (content.drop (offset + 12)).take 243 := by
  rw [boundedUserAgent_eq, getUserAgent, cstring_handedOn hlength hnul, Option.bind_some,
    length_handedOn hlength]
  cases strstr (untilNul content) (bytes "User-Agent: ") with
  | none => simp
  | some offset =>
    rw [Option.bind_some]
    by_cases hfits : offset + 256 ≤ httpMessageSize
    · have hregion : 256 ≤ ((handedOn content).drop offset).length := by
        rw [List.length_drop, length_handedOn hlength]
        omega
      have hcopy : (((handedOn content).drop offset).drop 12).take 243 =
          (content.drop (offset + 12)).take 243 := by
        rw [List.drop_drop]
        exact take_drop_handedOn content (by omega)
      have hzero : carriageReturn ≠ 0 := by decide
      simp only [hfits, if_true, true_and, Option.isSome_map, isSome_upToReturn,
        drop_userAgentCopy hregion, hcopy, List.mem_append, List.mem_singleton, hzero, or_false,
        Option.mem_some_iff, exists_eq_left']
    · simp [hfits]

/-- The functions stay in bounds on a message that was received if and only if its headers fit. -/
theorem headersInBounds_iff {content : List Byte} (hlength : content.length = httpMessageSize)
    (hreceived : looksComplete content = some true) :
    HeadersInBounds content ↔ HeadersFit content := by
  constructor
  · rintro ⟨hnul, -, haccept, huserAgent⟩
    refine ⟨hnul, fun offset hoffset ↦ ?_, (isSome_userAgent_iff hlength hnul).mp huserAgent⟩
    obtain ⟨found, hfound, hfits⟩ := (isSome_acceptLine_iff hlength hnul).mp haccept
    rw [Option.mem_unique hoffset hfound]
    exact hfits
  · rintro ⟨hnul, haccept, huserAgent⟩
    obtain ⟨offset, hoffset⟩ := Option.isSome_iff_exists.mp
      (isSome_accept_of_looksComplete hreceived)
    obtain ⟨start, hstart, hfits, hreturn⟩ := huserAgent
    -- the carriage return behind the user agent ends the search for the end of the line, too
    have hline : carriageReturn ∈ handedOn content := by
      rw [← take_drop_handedOn content (by omega)] at hreturn
      exact List.mem_of_mem_drop (List.mem_of_mem_take hreturn)
    exact ⟨hnul, (isSome_commandLine_iff hlength).mpr hline,
      (isSome_acceptLine_iff hlength hnul).mpr ⟨offset, hoffset, haccept offset hoffset⟩,
      (isSome_userAgent_iff hlength hnul).mpr ⟨start, hstart, hfits, hreturn⟩⟩

/-- A slot with a request whose headers fit. -/
theorem headersInBounds_photo : HeadersInBounds (padded (photoHead ++ photoTail)) := by
  refine (headersInBounds_iff (by decide +kernel) (by decide +kernel)).mpr ⟨?_, ?_, 26, ?_⟩
  · decide +kernel
  · decide +kernel
  · decide +kernel

/-- A request with a header `User-Agent:` without a space behind it. -/
def tightRequest : List Byte :=
  bytes "GET / HTTP/1.1\r\nUser-Agent:browser\r\nAccept: */*\r\nConnection: close\r\n\r\n"

/-- `receive_request` accepts it, and `get_user_agent` copies from where nothing was found. -/
theorem not_headersInBounds :
    (¬ ∀ content : List Byte, content.length = httpMessageSize →
      looksComplete content = some true → HeadersInBounds content) ∧
      looksComplete (padded tightRequest) = some true ∧
      strstr (untilNul (padded tightRequest)) (bytes "User-Agent: ") = none ∧
      boundedUserAgent (handedOn (padded tightRequest)) = none := by
  have hreceived : looksComplete (padded tightRequest) = some true := by decide +kernel
  have hnone : boundedUserAgent (handedOn (padded tightRequest)) = none := by decide +kernel
  refine ⟨fun hbounds ↦ ?_, hreceived, by decide +kernel, hnone⟩
  have huserAgent := (hbounds _ (by decide +kernel) hreceived).userAgent
  rw [hnone] at huserAgent
  exact Bool.false_ne_true huserAgent

end ImageApp.Requests
