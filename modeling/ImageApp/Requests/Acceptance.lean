import ImageApp.Foundations.PathDescent
import ImageApp.Requests.RoundTrip

/-!
# Which request lines are accepted

A request line is well formed when it is a known method, `" /?"`, a name without dots and blanks, a
dot, an extension and a blank. `parse_request` should return `REQUEST_RECEIVED` for no other line,
and answer every other one.

`lineShape` and `markedLine` say what `parse_name` does with a line of any shape, and
`answeredRight_iff` that a line is answered right exactly when it has a `'/'` before its first NUL
and, when a `'?'` follows the first one, a blank comes later, and a dot before that blank comes only
after a known method. The code that `parse_command` stores is not checked, and a line without such a
`'/'` leaves the scan as if a name had been read. `not_answeredRight` is a request with the method
`POST`.
-/

set_option autoImplicit false
set_option relaxedAutoImplicit false

namespace ImageApp.Requests

open Foundations.CStrings Foundations.PathDescent Server

/-! ### Well-formed lines -/

/-- The line is the method, a blank, `"/?"`, a name, a dot, an extension, a blank and a rest. -/
def WellFormed (method : Method) (line : List Byte) : Prop :=
  ∃ name ext rest,
    line = (method.text ++ [space]) ++ slash :: questionMark ::
      (name ++ dot :: (ext ++ space :: rest)) ∧ dot ∉ name ∧ space ∉ name

/-- The path of the line is `"/"`. -/
def EmptyPath (line : List Byte) : Prop :=
  ∃ front rest, line = front ++ slash :: space :: rest ∧ slash ∉ front

/-- The line asks for the icon. -/
def NamesIcon (line : List Byte) : Prop :=
  bytes "favicon" <:+: line

/-- A line is answered right: it is accepted only when it is well formed, and then with the code of
its method, and every other line gets an answer. -/
structure AnsweredRight (message line : List Byte) : Prop where
  accepted : ∀ request, parseRequest message = some (.requestReceived, request) →
    ∃ method, WellFormed method line ∧ request.cmd = method.cmd
  rejected : (∀ method, ¬ WellFormed method line) →
    ∃ request, parseRequest message = some (.messageNotCorrect, request) ∨
      (parseRequest message = some (.iconRequested, request) ∧ (EmptyPath line ∨ NamesIcon line))

/-- The line has a `'/'` before its first NUL. When a `'?'` follows the first one, a blank comes
later, and a dot before that blank comes only after a known method. -/
structure Answerable (line : List Byte) : Prop where
  slash_mem : slash ∈ untilNul line
  marked : ∀ front rest, line = front ++ slash :: questionMark :: rest → slash ∉ front →
    space ∈ rest ∧ (dot ∈ rest.takeWhile (· ≠ space) →
      ∃ method : Method, front = method.text ++ [space])

/-- A name and an extension follow when there is a dot before the first blank. -/
theorem exists_name_iff {rest : List Byte} :
    (∃ name ext after, rest = name ++ dot :: (ext ++ space :: after) ∧ dot ∉ name ∧
      space ∉ name) ↔ space ∈ rest ∧ dot ∈ rest.takeWhile (· ≠ space) := by
  constructor
  · rintro ⟨name, ext, after, rfl, -, hname⟩
    refine ⟨by simp, ?_⟩
    rw [takeWhile_ne_append hname, List.takeWhile_cons_of_pos (by decide)]
    simp
  · rintro ⟨hspace, hdot⟩
    obtain ⟨before, after, rfl, hbefore⟩ := List.eq_append_cons_of_mem hspace
    rw [takeWhile_ne_append_cons hbefore] at hdot
    obtain ⟨name, ext, rfl, hname⟩ := List.eq_append_cons_of_mem hdot
    refine ⟨name, ext, after, by simp, hname, fun hmem ↦ hbefore ?_⟩
    exact List.mem_append_left _ hmem

/-- A line with `"/?"` at its first `'/'` is well formed when the method comes before, and a name
and an extension behind. -/
theorem wellFormed_marked_iff {front rest : List Byte} (hfront : slash ∉ front) (method : Method) :
    WellFormed method (front ++ slash :: questionMark :: rest) ↔
      front = method.text ++ [space] ∧ space ∈ rest ∧ dot ∈ rest.takeWhile (· ≠ space) := by
  rw [← exists_name_iff]
  constructor
  · rintro ⟨name, ext, after, hline, hdot, hspace⟩
    have hmethod : slash ∉ method.text ++ [space] := method_free method slash List.mem_cons_self
    obtain ⟨hmethodFront, hrest⟩ := append_cons_inj hfront hmethod hline
    exact ⟨hmethodFront, name, ext, after, (List.cons.inj hrest).2, hdot, hspace⟩
  · rintro ⟨rfl, name, ext, after, rfl, hdot, hspace⟩
    exact ⟨name, ext, after, rfl, hdot, hspace⟩

theorem slash_mem_of_wellFormed {method : Method} {line : List Byte}
    (hformed : WellFormed method line) : slash ∈ untilNul line := by
  obtain ⟨name, ext, rest, rfl, -, -⟩ := hformed
  exact slash_mem_untilNul (method_free method 0 (by simp)) _

/-! ### What the scan of a line comes to -/

/-- What `parse_name` does with what follows `"/?"`. Without a blank it runs off the line. -/
inductive MarkedLine (rest : List Byte) : Option NameOutcome → Prop
  | unfinished (hspace : space ∉ rest) : MarkedLine rest none
  | dotless (hspace : space ∈ rest) (hdot : dot ∉ rest.takeWhile (· ≠ space)) :
    MarkedLine rest (some .messageNotCorrect)
  | named {name ext : List Byte} (hspace : space ∈ rest)
    (hdot : dot ∈ rest.takeWhile (· ≠ space)) : MarkedLine rest (some (.imageRequested name ext))

theorem markedLine (rest : List Byte) : MarkedLine rest (parseNameAfterMark rest) := by
  by_cases hspace : space ∈ rest
  · obtain ⟨before, after, rfl, hbefore⟩ := List.eq_append_cons_of_mem hspace
    by_cases hdot : dot ∈ before
    · obtain ⟨name, tail, rfl, hname⟩ := List.eq_append_cons_of_mem hdot
      rw [List.mem_append, List.mem_cons, not_or, not_or] at hbefore
      have hparse : parseNameAfterMark (name ++ dot :: tail ++ space :: after) =
          some (.imageRequested (untilNul name) (dot :: untilNul (tail.take 3))) := by
        rw [List.append_assoc, List.cons_append]
        exact parseNameAfterMark_append hname hbefore.1 hbefore.2.2 after
      rw [hparse]
      refine .named hspace (exists_name_iff.mp ⟨name, tail, after, ?_, hname, hbefore.1⟩).2
      rw [List.append_assoc, List.cons_append]
    · have hparse : parseNameAfterMark (before ++ space :: after) = some .messageNotCorrect := by
        rw [parseNameAfterMark, scanName_append hdot hbefore (Or.inr rfl), Option.bind_some,
          if_pos (List.head?_cons ..)]
      rw [hparse]
      exact .dotless hspace (by rwa [takeWhile_ne_append_cons hbefore])
  · have hparse : parseNameAfterMark rest = none := by
      cases hscan : parseNameAfterMark rest with
      | none => rfl
      | some outcome =>
        obtain ⟨⟨name, left⟩, hname, hext⟩ := Option.bind_eq_some_iff.mp hscan
        obtain ⟨hsplit, -, -, stop, after, rfl, hstop⟩ := scanName_spec hname
        have hleft : space ∉ stop :: after := by
          intro hmem
          rw [hsplit] at hspace
          exact hspace (List.mem_append_right _ hmem)
        have hnotBlank : ¬ (stop :: after).head? = some space := by
          rw [List.head?_cons, Option.some.injEq]
          exact fun hblank ↦ hleft (hblank ▸ List.mem_cons_self)
        rw [if_neg hnotBlank] at hext
        obtain ⟨ext, hscanned, -⟩ := Option.map_eq_some_iff.mp hext
        obtain ⟨-, behind, hcut⟩ := scanExt_spec hscanned
        have hsplitLeft : stop :: after = ext ++ space :: behind := hcut
        rw [hsplitLeft] at hleft
        exact absurd (List.mem_append_right ext List.mem_cons_self) hleft
    rw [hparse]
    exact .unfinished hspace

/-- What `parse_name` does with a line. -/
inductive LineShape (line : List Byte) : Option NameOutcome → Prop
  | pathless (hslash : slash ∉ untilNul line) : LineShape line (some (.imageRequested [] []))
  | marked {front rest : List Byte} (hzero : (0 : Byte) ∉ front) (hfront : slash ∉ front)
    (hline : line = front ++ slash :: questionMark :: rest) :
    LineShape line (parseNameAfterMark rest)
  | unmarked {front rest : List Byte} {outcome : NameOutcome} (hzero : (0 : Byte) ∉ front)
    (hfront : slash ∉ front) (hline : line = front ++ slash :: rest)
    (hrest : rest.head? ≠ some questionMark)
    (houtcome : outcome = .messageNotCorrect ∨ (outcome = .emptyPath ∧ EmptyPath line) ∨
      (outcome = .iconRequested ∧ NamesIcon line)) : LineShape line (some outcome)

/-- The branch for the icon rejects the line or has found the icon in it. -/
theorem parseNameIcon_cases (line : List Byte) :
    parseNameIcon line = .messageNotCorrect ∨
      (parseNameIcon line = .iconRequested ∧ NamesIcon line) := by
  unfold parseNameIcon
  split_ifs with hicon
  · exact Or.inr ⟨rfl, ((isSome_strstr _ _).mp hicon).trans (prefix_untilNul line).isInfix⟩
  · exact Or.inl rfl

theorem lineShape (line : List Byte) : LineShape line (parseName line) := by
  by_cases hslash : slash ∈ untilNul line
  · obtain ⟨front, rest, hline, hzero, hfront⟩ := exists_slash_of_mem hslash
    have hparse : parseName line = parseNameAtSlash line rest := by
      rw [hline]
      exact parseName_append hzero hfront rest
    rw [hparse]
    have hicon : parseNameIcon line = .messageNotCorrect ∨
        (parseNameIcon line = .emptyPath ∧ EmptyPath line) ∨
          (parseNameIcon line = .iconRequested ∧ NamesIcon line) :=
      (parseNameIcon_cases line).imp_right Or.inr
    cases rest with
    | nil => exact .unmarked hzero hfront hline (by simp) hicon
    | cons next rest =>
      simp only [parseNameAtSlash]
      split_ifs with hmark hblank
      · exact .marked hzero hfront (by rw [hline, hmark])
      · refine .unmarked hzero hfront hline ?_ (Or.inr (Or.inl ⟨rfl, front, rest, ?_, hfront⟩))
        · rw [List.head?_cons, ne_eq, Option.some.injEq]
          exact hmark
        · rw [hline, hblank]
      · refine .unmarked hzero hfront hline ?_ hicon
        rw [List.head?_cons, ne_eq, Option.some.injEq]
        exact hmark
  · rw [parseName_of_notMem hslash]
    exact .pathless hslash

/-! ### What the request comes to -/

/-- A line that is neither well formed nor rejected is not answered right. -/
theorem not_answeredRight_of_parseRequest {message line : List Byte}
    (hformed : ∀ method, ¬ WellFormed method line)
    (hparse : ∀ ret request, parseRequest message = some (ret, request) →
      ret = .requestReceived) : ¬ AnsweredRight message line := by
  intro hright
  obtain ⟨request, hrejected | ⟨hicon, -⟩⟩ := hright.rejected hformed
  · exact absurd (hparse _ _ hrejected) (by decide)
  · exact absurd (hparse _ _ hicon) (by decide)

section Answer

variable {message line : List Byte} (hline : getCommandLine message = some line)

include hline

/-- A request with an image name is accepted when its headers can be read, and the code of its
command is the one that `parse_command` finds in the line. -/
theorem parseRequest_of_imageRequested {imageName ext : List Byte}
    (hname : parseName line = some (.imageRequested imageName ext)) {ret : RqstStat}
    {request : ParsedRequest} (hparse : parseRequest message = some (ret, request)) :
    ret = .requestReceived ∧ request.cmd = parseCommand (untilNul line) := by
  rw [parseRequest, hline, Option.bind_some, hname, Option.bind_some] at hparse
  obtain ⟨acceptLine, -, hparse⟩ := Option.bind_eq_some_iff.mp hparse
  obtain ⟨userAgent, -, hparse⟩ := Option.map_eq_some_iff.mp hparse
  rw [Prod.mk.injEq] at hparse
  obtain ⟨rfl, rfl⟩ := hparse
  exact ⟨rfl, rfl⟩

/-- A line that `parse_name` rejects is answered right. -/
theorem answeredRight_of_rejected {outcome : NameOutcome} (hname : parseName line = some outcome)
    (houtcome : outcome = .messageNotCorrect ∨ (outcome = .emptyPath ∧ EmptyPath line) ∨
      (outcome = .iconRequested ∧ NamesIcon line)) : AnsweredRight message line := by
  have hanswer : ∃ request, parseRequest message = some (.messageNotCorrect, request) ∨
      (parseRequest message = some (.iconRequested, request) ∧
        (EmptyPath line ∨ NamesIcon line)) := by
    rw [parseRequest, hline, Option.bind_some, hname, Option.bind_some]
    rcases houtcome with rfl | ⟨rfl, hempty⟩ | ⟨rfl, hicon⟩
    · exact ⟨_, Or.inl rfl⟩
    · exact ⟨_, Or.inr ⟨rfl, Or.inl hempty⟩⟩
    · exact ⟨_, Or.inr ⟨rfl, Or.inr hicon⟩⟩
  refine ⟨fun request haccepted ↦ ?_, fun _ ↦ hanswer⟩
  obtain ⟨other, hrejected | ⟨hicon, -⟩⟩ := hanswer
  · rw [hrejected] at haccepted
    simp at haccepted
  · rw [hicon] at haccepted
    simp at haccepted

/-- For a line with `"/?"` at its first `'/'`. -/
theorem answeredRight_marked_iff {front rest : List Byte} (hfront : slash ∉ front)
    (hmarked : line = front ++ slash :: questionMark :: rest)
    (hname : parseName line = parseNameAfterMark rest) :
    AnsweredRight message line ↔ space ∈ rest ∧ (dot ∈ rest.takeWhile (· ≠ space) →
      ∃ method : Method, front = method.text ++ [space]) := by
  have hformed : ∀ method, WellFormed method line ↔
      front = method.text ++ [space] ∧ space ∈ rest ∧ dot ∈ rest.takeWhile (· ≠ space) := by
    rw [hmarked]
    exact wellFormed_marked_iff hfront
  have hshape := markedLine rest
  rw [← hname] at hshape
  generalize houtcome : parseName line = outcome at hshape
  cases hshape with
  | unfinished hspace =>
    refine iff_of_false ?_ fun hrest ↦ hspace hrest.1
    refine not_answeredRight_of_parseRequest (fun method hwell ↦ ?_) fun ret request hparse ↦ ?_
    · exact hspace ((hformed method).mp hwell).2.1
    · rw [parseRequest, hline, Option.bind_some, houtcome] at hparse
      simp at hparse
  | dotless hspace hdot =>
    refine iff_of_true ?_ ⟨hspace, fun hmem ↦ absurd hmem hdot⟩
    exact answeredRight_of_rejected hline houtcome (Or.inl rfl)
  | named hspace hdot =>
    constructor
    · intro hright
      refine ⟨hspace, fun _ ↦ ?_⟩
      by_contra hunknown
      refine not_answeredRight_of_parseRequest (fun method hwell ↦ ?_)
        (fun ret request hparse ↦ (parseRequest_of_imageRequested hline houtcome hparse).1) hright
      exact hunknown ⟨method, ((hformed method).mp hwell).1⟩
    · rintro ⟨-, hmethod⟩
      obtain ⟨method, hfrontMethod⟩ := hmethod hdot
      have hwell : WellFormed method line := (hformed method).mpr ⟨hfrontMethod, hspace, hdot⟩
      refine ⟨fun request hparse ↦ ⟨method, hwell, ?_⟩, fun hill ↦ absurd hwell (hill method)⟩
      have hcommand : parseCommand (untilNul line) = method.cmd := by
        rw [hmarked, hfrontMethod, untilNul_append (method_free method 0 (by simp)),
          List.append_assoc]
        exact parseCommand_method method _
      rw [(parseRequest_of_imageRequested hline houtcome hparse).2, hcommand]

/-- A message is answered right exactly when its first line has a `'/'` before its first NUL and,
when a `'?'` follows the first one, a blank comes later, and a dot before that blank comes only
after a known method. -/
theorem answeredRight_iff : AnsweredRight message line ↔ Answerable line := by
  have hshape := lineShape line
  generalize houtcome : parseName line = outcome at hshape
  cases hshape with
  | pathless hslash =>
    refine iff_of_false ?_ fun hanswerable ↦ hslash hanswerable.slash_mem
    refine not_answeredRight_of_parseRequest (fun method hwell ↦ ?_) fun ret request hparse ↦ ?_
    · exact hslash (slash_mem_of_wellFormed hwell)
    · exact (parseRequest_of_imageRequested hline houtcome hparse).1
  | @marked front rest hzero hfront hmarked =>
    rw [answeredRight_marked_iff hline hfront hmarked houtcome]
    constructor
    · intro hrest
      refine ⟨hmarked ▸ slash_mem_untilNul hzero _, fun front' rest' hline' hfront' ↦ ?_⟩
      obtain ⟨rfl, hsame⟩ := append_cons_inj hfront hfront' (hmarked.symm.trans hline')
      rw [(List.cons.inj hsame).2] at hrest
      exact hrest
    · exact fun hanswerable ↦ hanswerable.marked front rest hmarked hfront
  | @unmarked front rest outcome hzero hfront hunmarked hrest hrejected =>
    refine iff_of_true (answeredRight_of_rejected hline houtcome hrejected) ⟨?_, ?_⟩
    · rw [hunmarked]
      exact slash_mem_untilNul hzero rest
    · intro front' rest' hline' hfront'
      rw [(append_cons_inj hfront hfront' (hunmarked.symm.trans hline')).2] at hrest
      exact absurd rfl hrest

end Answer

/-! ### Two methods -/

/-- The first line of a request that is written from its parts is answerable. -/
theorem answerable_requestLine (request : FormattedRequest) : Answerable request.requestLine := by
  have hmethod : slash ∉ request.method.text ++ [space] :=
    method_free request.method slash List.mem_cons_self
  have hline := request.requestLine_eq
  have hslash : slash ∈ untilNul request.requestLine := by
    rw [hline]
    exact slash_mem_untilNul (method_free request.method 0 (by simp)) _
  refine ⟨hslash, fun front rest hline' hfront ↦ ?_⟩
  obtain ⟨hfrontMethod, hrest⟩ := append_cons_inj hmethod hfront (hline.symm.trans hline')
  refine ⟨?_, fun _ ↦ ⟨request.method, hfrontMethod.symm⟩⟩
  rw [← (List.cons.inj hrest).2]
  simp

theorem answeredRight_photo : AnsweredRight photoRequest.slot photoRequest.requestLine :=
  (answeredRight_iff photoRequest.getCommandLine_slot).mpr (answerable_requestLine photoRequest)

/-- A request for a photo with a method that the server does not know. -/
def postedPhoto : List Byte :=
  bytes "POST /?photo.jpg HTTP/1.1\r\nUser-Agent: browser\r\nAccept: image/*\r\nConnection: " ++
    photoTail

/-- The method `POST` is accepted, with the code for an incorrect message as its command. -/
theorem not_answeredRight :
    ¬ ∀ message line, getCommandLine message = some line → AnsweredRight message line := by
  intro hright
  have hline : getCommandLine (padded postedPhoto) =
      some (bytes "POST /?photo.jpg HTTP/1.1") := by decide +kernel
  obtain ⟨⟨ret, request⟩, hparse, hcmd⟩ := Option.map_eq_some_iff.mp
    (show (parseRequest (padded postedPhoto)).map (fun parsed ↦ (parsed.1, parsed.2.cmd)) =
      some (.requestReceived, .messageNotCorrect) by decide +kernel)
  rw [Prod.mk.injEq] at hcmd
  obtain ⟨rfl, hcmd⟩ := hcmd
  obtain ⟨method, -, hmethod⟩ := (hright _ _ hline).accepted request hparse
  rw [hcmd] at hmethod
  cases method with
  | get => simp [Method.cmd] at hmethod
  | head => simp [Method.cmd] at hmethod

end ImageApp.Requests
