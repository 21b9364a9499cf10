import ImageApp.Server.Reception

/-!
# Framing of requests

A client sends requests one after the other, and `recv` hands the stream over in pieces. The
messages that a worker receives are those of successive calls of `receive_request`, each on a zeroed
slot. What ends a message is not the blank line of a request but the piece after which the three
header names are all in the slot, so the messages follow the pieces: `framedMessages_eq_iff` says
that they are the requests exactly when no piece reaches over the end of a request and the control
on the slot succeeds with the last piece of each request and not before.

`receiveLoop_of_completes` and `completes_of_receiveLoop` relate one call to the pieces it consumes,
and `framedMessages_spec` the whole sequence of messages. The step from messages to pieces is a
count of bytes: a message that equals a request has taken at least as many bytes as the request has,
because the request does not end in a zero byte.
-/

set_option autoImplicit false
set_option relaxedAutoImplicit false

namespace ImageApp.Connections

open Foundations.CStrings Server

/-! ### The sequence of messages -/

/-- A call that receives a request consumes a result. -/
theorem length_lt_of_receiveLoop {message message' : List Byte} {received : ℕ} {retry : ℤ}
    {failed : Bool} {results rest : List RecvResult}
    (hrun : receiveLoop message received retry failed results =
      .returned .requestReceived message' rest) : rest.length < results.length := by
  induction results generalizing message received retry failed with
  | nil => exact absurd (receiveLoop_nil_cases hrun).1 (by decide)
  | cons result results ih =>
    rw [List.length_cons]
    rcases receiveLoop_cons_cases hrun with ⟨hempty, -⟩ | ⟨errno, -, hnext⟩ | ⟨piece, -, -, hpiece⟩
    · exact absurd hempty (by decide)
    · exact Nat.lt_succ_of_lt (ih hnext)
    · rcases hpiece with ⟨-, -, rfl, -⟩ | ⟨-, ⟨hempty, -⟩ | ⟨-, hnext⟩⟩
      · exact Nat.lt_succ_self _
      · exact absurd hempty (by decide)
      · exact Nat.lt_succ_of_lt (ih hnext)

/-- The messages of successive calls of `receive_request`, each on a zeroed slot, as long as they
receive a request. -/
def framedMessages (results : List RecvResult) : List (List Byte) :=
  match _hcall : receiveRequest (zeros httpMessageSize) results with
  | .returned .requestReceived message rest => message :: framedMessages rest
  | _ => []
termination_by results.length
decreasing_by exact length_lt_of_receiveLoop _hcall

/-- The control on the slot fails after every piece but the last, and succeeds after the last one;
`text` was in the slot before the pieces. -/
def CompletesWithLast (text : List Byte) : List (List Byte) → Prop
  | [] => False
  | [piece] => looksComplete (padded (text ++ piece)) = some true
  | piece :: next :: rest =>
    looksComplete (padded (text ++ piece)) = some false ∧
      CompletesWithLast (text ++ piece) (next :: rest)

/-- A complete request as a browser sends it. -/
structure CompleteRequest (request : List Byte) : Prop where
  length_lt : request.length < httpMessageSize
  userAgent : bytes "User-Agent: " <:+: request
  accept : bytes "Accept: " <:+: request
  connection : bytes "Connection: " <:+: request
  blankLine : bytes "\r\n\r\n" <:+ request

/-- The pieces are cut at the ends of the requests, and the control on the slot succeeds with the
last piece of each request and not before. -/
def CutAtRequests (requests pieces : List (List Byte)) : Prop :=
  ∃ groups : List (List (List Byte)), pieces = groups.flatten ∧
    groups.map List.flatten = requests ∧ ∀ group ∈ groups, CompletesWithLast [] group

/-! ### One call and the pieces it consumes -/

/-- A call receives the pieces up to the one after which the control succeeds. -/
theorem receiveLoop_of_completes {text : List Byte} {group : List (List Byte)} {retry : ℤ}
    (hretry : 0 < retry) (hpieces : ∀ piece ∈ group, piece ≠ [])
    (hroom : (text ++ group.flatten).length ≤ httpMessageSize)
    (hcompletes : CompletesWithLast text group) (rest : List RecvResult) :
    receiveLoop (padded text) text.length retry false (group.map .data ++ rest) =
      .returned .requestReceived
        ((padded (text ++ group.flatten)).set (httpMessageSize - 1) 0) rest := by
  induction group generalizing text with
  | nil => exact absurd hcompletes id
  | cons piece group ih =>
    rw [List.forall_mem_cons] at hpieces
    rw [List.flatten_cons, ← List.append_assoc] at hroom ⊢
    have hroom' : text.length + piece.length ≤ httpMessageSize := by
      rw [List.length_append, List.length_append] at hroom
      omega
    rw [List.map_cons, List.cons_append, receiveLoop_data hretry hroom' hpieces.1]
    cases group with
    | nil =>
      have hlast : looksComplete (padded (text ++ piece)) = some true := hcompletes
      rw [hlast]
      simp
    | cons next group =>
      obtain ⟨hcontrol, hlater⟩ := hcompletes
      rw [hcontrol]
      exact ih hpieces.2 hroom hlater

/-- What a call that receives a request has consumed, and the message it leaves. -/
theorem completes_of_receiveLoop {text message : List Byte} {pieces : List (List Byte)} {retry : ℤ}
    {rest : List RecvResult} (hroom : text.length ≤ httpMessageSize)
    (hrun : receiveLoop (padded text) text.length retry false (pieces.map .data) =
      .returned .requestReceived message rest) :
    ∃ group later, pieces = group ++ later ∧ rest = later.map .data ∧
      message = (padded (text ++ group.flatten)).set (httpMessageSize - 1) 0 ∧
      CompletesWithLast text group := by
  induction pieces generalizing text with
  | nil => exact absurd (receiveLoop_nil_cases hrun).1 (by decide)
  | cons piece pieces ih =>
    rw [List.map_cons] at hrun
    rcases receiveLoop_cons_cases hrun with ⟨hempty, -⟩ | ⟨errno, herror, -⟩ |
      ⟨piece', heq, hfits, hpiece⟩
    · exact absurd hempty (by decide)
    · simp at herror
    · rw [RecvResult.data.injEq] at heq
      subst heq
      rw [overwrite_padded] at hpiece
      rcases hpiece with ⟨hcontrol, -, rfl, rfl⟩ | ⟨hcontrol, ⟨hempty, -⟩ | ⟨-, hnext⟩⟩
      · exact ⟨[piece], pieces, rfl, rfl, by simp, hcontrol⟩
      · exact absurd hempty (by decide)
      · rw [← List.length_append] at hnext
        have hroom' : (text ++ piece).length ≤ httpMessageSize := by
          rw [List.length_append]
          omega
        obtain ⟨group, later, rfl, hrest, hmessage, hcompletes⟩ := ih hroom' hnext
        refine ⟨piece :: group, later, rfl, hrest, ?_, ?_⟩
        · rw [hmessage, List.flatten_cons, List.append_assoc]
        · cases group with
          | nil => exact absurd hcompletes id
          | cons next group => exact ⟨hcontrol, hcompletes⟩

/-! ### The messages and the pieces they consume -/

/-- A call that receives a request gives the first message. -/
theorem framedMessages_cons {results rest : List RecvResult} {message : List Byte}
    (hcall : receiveRequest (zeros httpMessageSize) results =
      .returned .requestReceived message rest) :
    framedMessages results = message :: framedMessages rest := by
  rw [framedMessages]
  split
  · rename_i message' rest' hcall'
    rw [hcall, ReceiveOutcome.returned.injEq] at hcall'
    rw [hcall'.2.1, hcall'.2.2]
  · rename_i hnone
    exact absurd hcall (hnone message rest)

/-- Pieces that are grouped as the control ends the messages give one message for each group. -/
theorem framedMessages_flatten {groups : List (List (List Byte))}
    (hpieces : ∀ group ∈ groups, ∀ piece ∈ group, piece ≠ [])
    (hroom : ∀ group ∈ groups, group.flatten.length ≤ httpMessageSize)
    (hcompletes : ∀ group ∈ groups, CompletesWithLast [] group) :
    framedMessages (groups.flatten.map .data) =
      groups.map fun group ↦ (padded group.flatten).set (httpMessageSize - 1) 0 := by
  induction groups with
  | nil =>
    rw [framedMessages]
    rfl
  | cons group groups ih =>
    rw [List.forall_mem_cons] at hpieces hroom hcompletes
    have hcall := @receiveLoop_of_completes [] group 2 (by decide) hpieces.1 hroom.1 hcompletes.1
      (groups.flatten.map .data)
    rw [List.flatten_cons, List.map_append, framedMessages_cons hcall,
      ih hpieces.2 hroom.2 hcompletes.2, List.map_cons, List.nil_append]

/-- Every message is that of a group of pieces which the control ends; what is left over gives no
further message. -/
theorem framedMessages_spec (pieces : List (List Byte)) :
    ∃ groups left, pieces = List.flatten groups ++ left ∧
      framedMessages (pieces.map .data) =
        groups.map (fun group ↦ (padded group.flatten).set (httpMessageSize - 1) 0) ∧
      ∀ group ∈ groups, CompletesWithLast [] group := by
  induction hlength : pieces.length using Nat.strongRecOn generalizing pieces with
  | ind length ih =>
    by_cases hcall : ∃ message rest, receiveRequest (zeros httpMessageSize) (pieces.map .data) =
        .returned .requestReceived message rest
    · obtain ⟨message, rest, hcall⟩ := hcall
      have hshorter := length_lt_of_receiveLoop hcall
      rw [receiveRequest] at hcall
      obtain ⟨group, later, rfl, rfl, hmessage, hcompletes⟩ :=
        @completes_of_receiveLoop [] _ _ _ _ (Nat.zero_le _) hcall
      rw [List.length_map, List.length_map, hlength] at hshorter
      obtain ⟨groups, left, rfl, hmessages, hgroups⟩ := ih later.length hshorter later rfl
      refine ⟨group :: groups, left, ?_, ?_, ?_⟩
      · rw [List.flatten_cons, List.append_assoc]
      · rw [framedMessages_cons hcall, hmessages, hmessage, List.nil_append, List.map_cons]
      · rw [List.forall_mem_cons]
        exact ⟨hcompletes, hgroups⟩
    · refine ⟨[], pieces, rfl, ?_, by simp⟩
      rw [framedMessages]
      split
      · rename_i message rest hreturned
        exact absurd ⟨message, rest, hreturned⟩ hcall
      · rfl

/-! ### Counting bytes -/

/-- A complete request does not end in a zero byte. -/
theorem getD_last_ne_zero {request : List Byte} (hrequest : CompleteRequest request) :
    request ≠ [] ∧ request.getD (request.length - 1) 0 ≠ 0 := by
  obtain ⟨front, hfront⟩ := hrequest.blankLine
  have hsplit : request = front ++ [13, 10, 13] ++ [10] := by
    rw [← hfront, List.append_assoc]
    exact congrArg (front ++ ·) (by decide)
  have hlast : request.length - 1 = (front ++ [13, 10, 13]).length := by
    rw [hsplit, List.length_append, List.length_singleton, Nat.add_sub_cancel]
  refine ⟨by simp [hsplit], ?_⟩
  rw [hlast, hsplit, List.getD_append_right _ _ _ _ (Nat.le_refl _), Nat.sub_self]
  decide

/-- A message that equals a request has taken at least as many bytes as the request has. -/
theorem length_le_of_padded_eq {request text : List Byte} (hrequest : CompleteRequest request)
    (heq : padded request = (padded text).set (httpMessageSize - 1) 0) :
    request.length ≤ text.length := by
  by_contra hshort
  obtain ⟨hne, hlast⟩ := getD_last_ne_zero hrequest
  have hpos : 0 < request.length := List.length_pos_of_ne_nil hne
  apply hlast
  have htext : (padded text).getD (request.length - 1) 0 = 0 := by
    rw [getD_padded, List.getD_eq_default _ _ (by omega)]
  rw [← getD_padded, heq, List.getD_eq_getElem?_getD, List.getElem?_set]
  split_ifs with hindex hinside
  · rfl
  · rfl
  · rw [← List.getD_eq_getElem?_getD, htext]

/-- Texts that are at least as long as the requests and make up the start of the same stream are the
requests. -/
theorem eq_of_flatten_append_eq {requests texts : List (List Byte)} {left : List Byte}
    (hle : List.Forall₂ (fun request text ↦ request.length ≤ text.length) requests texts)
    (hstream : texts.flatten ++ left = requests.flatten) : texts = requests ∧ left = [] := by
  induction hle with
  | nil => exact ⟨rfl, hstream⟩
  | @cons request text requests texts hhead htail ih =>
    have htotal : requests.flatten.length ≤ texts.flatten.length := by
      clear ih hstream
      induction htail with
      | nil => exact Nat.le_refl _
      | cons hfirst _ ih =>
        rw [List.flatten_cons, List.flatten_cons, List.length_append, List.length_append]
        omega
    rw [List.flatten_cons, List.flatten_cons, List.append_assoc] at hstream
    have hlength := congrArg List.length hstream
    simp only [List.length_append] at hlength
    obtain ⟨rfl, hrest⟩ := List.append_inj hstream (by omega)
    obtain ⟨rfl, hleft⟩ := ih hrest
    exact ⟨rfl, hleft⟩

/-! ### The exact condition -/

/-- The messages are the requests exactly when the pieces are cut at the ends of the requests and
the control succeeds with the last piece of each request. -/
theorem framedMessages_eq_iff {requests pieces : List (List Byte)}
    (hrequests : ∀ request ∈ requests, CompleteRequest request)
    (hpieces : ∀ piece ∈ pieces, piece ≠ [])
    (hstream : pieces.flatten = requests.flatten) :
    framedMessages (pieces.map .data) = requests.map padded ↔ CutAtRequests requests pieces := by
  constructor
  · intro hmessages
    obtain ⟨groups, left, rfl, hspec, hcompletes⟩ := framedMessages_spec pieces
    rw [hspec] at hmessages
    have hle : List.Forall₂ (fun request text ↦ request.length ≤ text.length) requests
        (groups.map List.flatten) := by
      clear hspec hcompletes hstream hpieces
      induction groups generalizing requests with
      | nil =>
        rw [List.map_nil, eq_comm, List.map_eq_nil_iff] at hmessages
        rw [hmessages]
        exact List.Forall₂.nil
      | cons group groups ih =>
        cases requests with
        | nil => simp at hmessages
        | cons request requests =>
          rw [List.forall_mem_cons] at hrequests
          rw [List.map_cons, List.map_cons, List.cons.injEq] at hmessages
          exact List.Forall₂.cons (length_le_of_padded_eq hrequests.1 hmessages.1.symm)
            (ih hrequests.2 hmessages.2)
    have htexts : (groups.map List.flatten).flatten ++ left.flatten = requests.flatten := by
      rw [← hstream, List.flatten_append, List.flatten_flatten]
    obtain ⟨hgroups, hleft⟩ := eq_of_flatten_append_eq hle htexts
    have hempty : left = [] := by
      cases left with
      | nil => rfl
      | cons piece left =>
        have hpiece : piece ≠ [] := hpieces piece (List.mem_append_right _ List.mem_cons_self)
        rw [List.flatten_cons, List.append_eq_nil_iff] at hleft
        exact absurd hleft.1 hpiece
    exact ⟨groups, by rw [hempty, List.append_nil], hgroups, hcompletes⟩
  · rintro ⟨groups, rfl, rfl, hcompletes⟩
    have hshort : ∀ group ∈ groups, group.flatten.length < httpMessageSize := fun group hgroup ↦
      (hrequests _ (List.mem_map_of_mem hgroup)).length_lt
    have hgroups : ∀ group ∈ groups, ∀ piece ∈ group, piece ≠ [] := fun group hgroup piece hpiece ↦
      hpieces piece (List.mem_flatten_of_mem hgroup hpiece)
    rw [framedMessages_flatten hgroups (fun group hgroup ↦ (hshort group hgroup).le) hcompletes,
      List.map_map]
    exact List.map_congr_left fun group hgroup ↦ set_padded (hshort group hgroup)

theorem completeRequest_photo : CompleteRequest (photoHead ++ photoTail) where
  length_lt := by decide
  userAgent := ⟨photoHead.take 26, (photoHead ++ photoTail).drop 38, by decide⟩
  accept := ⟨photoHead.take 47, (photoHead ++ photoTail).drop 55, by decide⟩
  connection := ⟨photoHead.take 64, photoTail, by decide⟩
  blankLine := ⟨(photoHead ++ photoTail).take 81, by decide⟩

theorem framedMessages_photo :
    framedMessages ([photoHead ++ photoTail].map .data) = [photoHead ++ photoTail].map padded ↔
      CutAtRequests [photoHead ++ photoTail] [photoHead ++ photoTail] :=
  framedMessages_eq_iff (by simpa using completeRequest_photo) (by decide) rfl

/-- A request that is cut behind the name of its last header is received without its end. -/
theorem not_framedMessages_eq :
    ¬ ∀ requests pieces : List (List Byte), (∀ request ∈ requests, CompleteRequest request) →
      (∀ piece ∈ pieces, piece ≠ []) → pieces.flatten = requests.flatten →
        framedMessages (pieces.map .data) = requests.map padded := by
  intro hframing
  have hmessages := hframing [photoHead ++ photoTail] [photoHead, photoTail]
    (by simpa using completeRequest_photo) (by decide) (by decide)
  have hcall : receiveRequest (zeros httpMessageSize) ([photoHead, photoTail].map .data) =
      .returned .requestReceived (padded photoHead) [.data photoTail] := by decide +kernel
  rw [framedMessages_cons hcall, List.map_singleton, List.cons.injEq] at hmessages
  exact absurd hmessages.1 (by decide +kernel)

end ImageApp.Connections
