import ImageApp.Foundations.SqlLiterals
import ImageApp.Server.HandleDB
import ImageApp.Server.Reception
import ImageApp.Server.RequestLine

/-!
# The user agent inside the query

`retrieve_dim_from_DB` pastes the user agent of a client between the quotes of its query. Here the
query is read back as SQL: the text in front of the literal, one string literal, and a semicolon.

`keepsShape_iff` says for which user agents the literal is the user agent with `%` behind it.
`not_keepsShape` is a client whose user agent ends the literal and adds a condition of its own.
-/

set_option autoImplicit false
set_option relaxedAutoImplicit false

namespace ImageApp.Queries

open Foundations.CStrings Foundations.SqlLiterals Server

/-- The value of the literal in a statement of the wanted shape. A literal that ends early is
shorter than the wanted value, whatever comes behind it. -/
def readStatement (text : List Byte) : Option (List Byte) :=
  if text.take (queryFront.length + 1) = queryFront ++ [singleQuote] then
    (readLiteral (text.drop (queryFront.length + 1))).bind fun read ↦
      if read.2 = bytes ";" then some read.1 else none
  else none

/-- The query fits into `tmp_query`, and its literal is the user agent with `%` behind it. -/
def KeepsShape (userAgent : List Byte) : Prop :=
  ∃ query, tmpQuery userAgent = some query ∧
    readStatement query = some (userAgent ++ bytes "%")

theorem deviceQuery_eq (userAgent : List Byte) :
    deviceQuery userAgent = (queryFront ++ [singleQuote]) ++
      ((userAgent ++ bytes "%") ++ singleQuote :: bytes ";") := by
  have hopen : bytes "'" = [singleQuote] := by decide
  have hclose : bytes "%';" = bytes "%" ++ singleQuote :: bytes ";" := by decide
  rw [deviceQuery, hopen, hclose, ← List.append_assoc, List.append_assoc (queryFront ++ _),
    List.append_assoc]

theorem length_deviceQuery (userAgent : List Byte) :
    (deviceQuery userAgent).length = userAgent.length + 46 := by
  have hfront : queryFront.length = 42 := by decide
  have hopen : (bytes "'").length = 1 := by decide
  have hclose : (bytes "%';").length = 3 := by decide
  rw [deviceQuery, List.length_append, List.length_append, List.length_append, hfront, hopen,
    hclose]
  omega

/-- The query reads as wanted when the text between its quotes is plain. -/
theorem readStatement_deviceQuery (userAgent : List Byte) :
    readStatement (deviceQuery userAgent) = some (userAgent ++ bytes "%") ↔
      isPlain (userAgent ++ bytes "%") = true := by
  have hlength : (queryFront ++ [singleQuote]).length = queryFront.length + 1 :=
    List.length_append
  have hend : (bytes ";").head? ≠ some singleQuote := by decide
  rw [← readLiteral_append_iff hend]
  unfold readStatement
  rw [deviceQuery_eq, List.take_left' hlength, List.drop_left' hlength, if_pos rfl]
  constructor
  · intro hread
    obtain ⟨⟨value, left⟩, hliteral, hvalue⟩ := Option.bind_eq_some_iff.mp hread
    split_ifs at hvalue with hleft
    rw [Option.some.injEq] at hvalue
    have hvalue' : value = userAgent ++ bytes "%" := hvalue
    have hleft' : left = bytes ";" := hleft
    rw [hliteral, hvalue', hleft']
  · intro hliteral
    rw [hliteral, Option.bind_some, if_pos rfl]

/-- The query for a user agent keeps its shape if and only if the user agent has at most 81 bytes,
no quote, and no backslash but in front of a wildcard or at its end. -/
theorem keepsShape_iff {userAgent : List Byte} (hagent : userAgent ≠ []) :
    KeepsShape userAgent ↔ userAgent.length ≤ 81 ∧ isPlain (userAgent ++ bytes "%") = true := by
  rw [← readStatement_deviceQuery]
  unfold KeepsShape tmpQuery
  rw [if_neg hagent]
  constructor
  · rintro ⟨query, hquery, hread⟩
    split_ifs at hquery with hfits
    rw [Option.some.injEq] at hquery
    rw [length_deviceQuery] at hfits
    exact ⟨by omega, hquery ▸ hread⟩
  · rintro ⟨hshort, hread⟩
    have hfits : (deviceQuery userAgent).length < 128 := by
      rw [length_deviceQuery]
      omega
    exact ⟨_, if_pos hfits, hread⟩

/-- A browser's name. -/
theorem keepsShape_browser :
    bytes "browser" ≠ [] ∧ KeepsShape (bytes "browser") ∧
      (KeepsShape (bytes "browser") ↔
        (bytes "browser").length ≤ 81 ∧ isPlain (bytes "browser" ++ bytes "%") = true) := by
  have hagent : bytes "browser" ≠ [] := by decide
  exact ⟨hagent, (keepsShape_iff hagent).mpr (by decide), keepsShape_iff hagent⟩

/-- A request whose user agent ends the literal. -/
def quotedAgentRequest : List Byte :=
  padded <| bytes <| "GET /?photo.jpg HTTP/1.1\r\nUser-Agent: x' OR '1'='1\r\n" ++
    "Accept: image/*\r\nConnection: close\r\n\r\n"

/-- The query of that request asks for every device, and does not keep its shape. -/
theorem not_keepsShape :
    (¬ ∀ message userAgent, getUserAgent message = some userAgent → userAgent ≠ [] →
      KeepsShape userAgent) ∧
      tmpQuery (bytes "x' OR '1'='1") =
        some (bytes "SELECT * FROM device WHERE useragent LIKE 'x' OR '1'='1%';") := by
  refine ⟨fun hkeeps ↦ ?_, by decide +kernel⟩
  have hagent : getUserAgent quotedAgentRequest = some (bytes "x' OR '1'='1") := by decide +kernel
  have hne : bytes "x' OR '1'='1" ≠ [] := by decide +kernel
  have hplain := ((keepsShape_iff hne).mp (hkeeps _ _ hagent hne)).2
  revert hplain
  decide +kernel

end ImageApp.Queries
