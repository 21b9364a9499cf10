import ImageApp.Responses.StatusLines

/-!
# Answers to HEAD

The answer to a request with the method HEAD is to be a header block and nothing else. The method is
kept in the request, and only the sender of an adapted image looks at it: the icon is sent as for
GET, and an error page is always sent whole.

`isHeaderBlock_iff` lists the requests that are answered without a body. `not_isHeaderBlock` is a
HEAD for the empty path, whose answer has the icon in its body.
-/

set_option autoImplicit false
set_option relaxedAutoImplicit false

namespace ImageApp.Responses

open Foundations.CStrings Foundations.HeaderBlocks Server

/-- A line that begins with HEAD has this method. -/
theorem parseCommand_of_head {firstLine : List Byte} (hhead : bytes "HEAD" <+: firstLine) :
    parseCommand (untilNul firstLine) = .headCmd := by
  obtain ⟨rest, rfl⟩ := hhead
  rw [untilNul_append (by decide)]
  have hsplit : bytes "HEAD" ++ untilNul rest = 72 :: (bytes "EAD" ++ untilNul rest) := rfl
  have hget : ¬ bytes "GET" <+: 72 :: (bytes "EAD" ++ untilNul rest) := by
    intro hget
    exact absurd (List.cons_prefix_cons.mp hget).1 (by decide)
  have hhere : bytes "HEAD" <+: 72 :: (bytes "EAD" ++ untilNul rest) := ⟨untilNul rest, rfl⟩
  rw [hsplit, parseCommand, if_neg hget, if_pos hhere]

/-- The requests that are answered without a body: the client has requests left, and asks for an
image that is present, or for the icon when the file of the icon is empty. -/
def BodyLess (contents : Contents) (worker : Worker) (input : IterationInput)
    (message : List Byte) : Prop :=
  worker.td.request ≠ 0 ∧ ∃ ret request, parseRequest message = some (ret, request) ∧
    (ret = .requestReceived ∧ input.imagePresent = true ∨
      ret = .iconRequested ∧ contents.icon = [])

/-- A page has a body. -/
theorem not_isHeaderBlock_sendPage (page : List Byte) : ¬ IsHeaderBlock (sendPage page) := by
  intro hblock
  have hbody := hblock.bodyOf_eq
  rw [bodyOf_sendPage, Option.some.injEq] at hbody
  exact List.append_ne_nil_of_right_ne_nil _ (List.cons_ne_nil _ _) hbody

/-- The answer with an image is a header block when the image is not sent, or is empty. -/
theorem isHeaderBlock_sendImage_iff (content : List Byte) (cmd : RqstStat) :
    IsHeaderBlock (sendImage content cmd) ↔ cmd ≠ .getCmd ∨ content = [] := by
  constructor
  · intro hblock
    have hbody := hblock.bodyOf_eq
    rw [bodyOf_sendImage, Option.some.injEq] at hbody
    by_cases hget : cmd = .getCmd
    · rw [if_pos hget] at hbody
      exact Or.inr hbody
    · exact Or.inl hget
  · intro hnone
    have hempty : (if cmd = .getCmd then content else []) = [] := by
      split_ifs with hget
      · exact hnone.resolve_left (not_not.mpr hget)
      · rfl
    rw [sendImage, hempty, List.append_nil, buildMessage_image]
    exact isHeaderBlock_headerBlock (List.cons_ne_nil _ _) (isLine_imageLines _)

/-- The answer to a request with the method HEAD. -/
theorem isHeaderBlock_answerText_iff {contents : Contents} {input : IterationInput}
    {ret : RqstStat} {request : ParsedRequest} (hcmd : request.cmd = .headCmd)
    (hret : ret = .requestReceived ∨ ret = .iconRequested ∨ ret = .messageNotCorrect) :
    IsHeaderBlock (answerText contents input ret request) ↔
      (ret = .requestReceived ∧ input.imagePresent = true ∨
        ret = .iconRequested ∧ contents.icon = []) := by
  rcases hret with rfl | rfl | rfl
  · by_cases hpresent : input.imagePresent = true
    · rw [answerText, if_pos hpresent, isHeaderBlock_sendImage_iff, hcmd]
      simp [hpresent]
    · rw [answerText, if_neg hpresent]
      exact iff_of_false (not_isHeaderBlock_sendPage _) (by simp [hpresent])
  · rw [answerText, isHeaderBlock_sendImage_iff]
    simp
  · rw [answerText]
    exact iff_of_false (not_isHeaderBlock_sendPage _) (by simp)

/-- A request with the method HEAD is answered by one header block and nothing else exactly when it
is one of these. -/
theorem isHeaderBlock_iff {contents : Contents} {worker worker' : Worker} {input : IterationInput}
    {message firstLine : List Byte} {effects : List Effect}
    (hreceive : receiveRequest worker.nextMessage input.received =
      .returned .requestReceived message [])
    (hline : getCommandLine message = some firstLine) (hhead : bytes "HEAD" <+: firstLine)
    (hrun : iterate worker input = some (worker', effects)) :
    (∃ answer, transmitted contents effects = some answer ∧ IsHeaderBlock answer) ↔
      BodyLess contents worker input message := by
  obtain ⟨answer, hanswer, hanswered⟩ := answered_of_iterate hrun
  have hsame : (∃ answer, transmitted contents effects = some answer ∧ IsHeaderBlock answer) ↔
      IsHeaderBlock answer := by
    rw [hanswer]
    simp
  rw [hsame, BodyLess]
  cases hanswered with
  | spent _ hspent =>
    exact iff_of_false (not_isHeaderBlock_sendPage _) fun hbodyLess ↦ hbodyLess.1 hspent
  | gone hgone =>
    rw [hreceive] at hgone
    simp at hgone
  | parsed hsecond hleft hparse =>
    rename_i message' ret request
    have hmessage : message' = message := by
      rw [hreceive] at hsecond
      simpa using hsecond.symm
    rw [hmessage] at hparse
    obtain ⟨firstLine', hline', hcmd, hret⟩ := parseRequest_cases hparse
    rw [hline, Option.some.injEq] at hline'
    rw [← hline', parseCommand_of_head hhead] at hcmd
    rw [isHeaderBlock_answerText_iff hcmd hret, hparse]
    simp [hleft]

/-- The lines that follow the first line of a request. -/
def headHeaders : List Byte :=
  bytes " HTTP/1.1\r\nUser-Agent: browser\r\nAccept: image/*\r\nConnection: close\r\n\r\n"

/-- A request with the method HEAD for a path, whose image is present if it names one. -/
def headRequest (path : List Byte) : IterationInput :=
  { servedPhoto with received := [.data (bytes "HEAD " ++ path ++ headHeaders)] }

/-- A worker with a new connection. -/
def assignedWorker : Worker :=
  ⟨assignConnection allocatedThread 4 (0, 0), 0⟩

theorem isHeaderBlock_photo :
    ∃ message worker' effects,
      receiveRequest assignedWorker.nextMessage (headRequest (bytes "/?photo.jpg")).received =
        .returned .requestReceived message [] ∧
      iterate assignedWorker (headRequest (bytes "/?photo.jpg")) = some (worker', effects) ∧
      ((∃ answer, transmitted photoContents effects = some answer ∧ IsHeaderBlock answer) ↔
        BodyLess photoContents assignedWorker (headRequest (bytes "/?photo.jpg")) message) := by
  have hreceive : receiveRequest assignedWorker.nextMessage
      (headRequest (bytes "/?photo.jpg")).received = .returned .requestReceived
        (padded (bytes "HEAD /?photo.jpg" ++ headHeaders)) [] := by decide +kernel
  obtain ⟨⟨worker', effects⟩, hrun⟩ := Option.isSome_iff_exists.mp
    (show (iterate assignedWorker (headRequest (bytes "/?photo.jpg"))).isSome = true by
      decide +kernel)
  have hline : getCommandLine (padded (bytes "HEAD /?photo.jpg" ++ headHeaders)) =
      some (bytes "HEAD /?photo.jpg HTTP/1.1") := by decide +kernel
  exact ⟨_, worker', effects, hreceive, hrun, isHeaderBlock_iff hreceive hline (by decide) hrun⟩

/-- A HEAD for the empty path is answered with the icon. -/
theorem not_isHeaderBlock :
    ¬ ∀ (contents : Contents) (worker worker' : Worker) (input : IterationInput)
      (message firstLine : List Byte) (effects : List Effect),
      receiveRequest worker.nextMessage input.received =
        .returned .requestReceived message [] → getCommandLine message = some firstLine →
        bytes "HEAD" <+: firstLine → iterate worker input = some (worker', effects) →
          ∃ answer, transmitted contents effects = some answer ∧ IsHeaderBlock answer := by
  intro hblock
  have hreceive : receiveRequest assignedWorker.nextMessage (headRequest (bytes "/")).received =
      .returned .requestReceived (padded (bytes "HEAD /" ++ headHeaders)) [] := by decide +kernel
  obtain ⟨⟨worker', effects⟩, hrun, htransmitted⟩ := Option.map_eq_some_iff.mp
    (show (iterate assignedWorker (headRequest (bytes "/"))).map
      (fun ended ↦ transmitted photoContents ended.2) = some (some (sendImage [2] .getCmd)) by
        decide +kernel)
  have hline : getCommandLine (padded (bytes "HEAD /" ++ headHeaders)) =
      some (bytes "HEAD / HTTP/1.1") := by decide +kernel
  obtain ⟨answer, hanswer, hanswerBlock⟩ := hblock photoContents _ worker' _ _ _ effects hreceive
    hline (by decide) hrun
  have hanswer : answer = sendImage [2] .getCmd := by
    have hsame := htransmitted.symm.trans hanswer
    rw [Option.some.injEq] at hsame
    exact hsame.symm
  rw [hanswer, isHeaderBlock_sendImage_iff] at hanswerBlock
  simp at hanswerBlock

end ImageApp.Responses
