import ImageApp.Server.RecvCalls

/-!
# The end of receive_request

Whatever `recv` does, the loop of `receive_request` comes to an end, and every call of `recv` is
given a range of the message slot. The condition of the loop never fails: the counter of retries is
lowered only by a call that returns -1, and the test in front of the next call returns when the
counter is zero then. `advances_receiveIteration` is the step, `remaining` the measure.
-/

set_option autoImplicit false
set_option relaxedAutoImplicit false

namespace ImageApp.Connections

open Foundations.CStrings Foundations.LoopRuns Server Server.Senders Server.RecvCalls

/-- No more was received than the slot holds, and every call was given a range of the slot. -/
structure InSlot (s : ReceiveState) : Prop where
  nonneg : 0 ≤ s.received
  le : s.received ≤ httpMessageSize
  targets : ∀ target ∈ s.targets, 0 ≤ target.1 ∧ target.1 + target.2 ≤ httpMessageSize

/-- The variables between two iterations. The counter of retries is not below zero, and at zero the
last call has failed. -/
structure Receiving (s : ReceiveState) : Prop extends InSlot s where
  retry_nonneg : 0 ≤ s.retry
  failed : s.retry = 0 → s.v = -1

/-- The loop on its way or at its end. -/
def Received : Progress ReceiveState ReceiveEnd → Prop
  | .running s => Receiving s
  | .ended s result => InSlot s ∧ result ≠ .conditionFailed

/-- The bytes that can still be received, and the retries that are left. -/
def remaining (s : ReceiveState) : ℕ :=
  (httpMessageSize - s.received).toNat + s.retry.toNat

/-- The loop after an iteration: it goes on with less remaining, or it has ended by a return or by
the end of the program. -/
def Advances (s : ReceiveState) : Progress ReceiveState ReceiveEnd → Prop
  | .running t => Receiving t ∧ remaining t < remaining s
  | .ended t result => InSlot t ∧ result ≠ .conditionFailed

theorem receiving_startReceive (message : List Byte) : Receiving (startReceive message) where
  nonneg := le_rfl
  le := Int.natCast_nonneg httpMessageSize
  targets := fun _ hmem ↦ absurd hmem List.not_mem_nil
  retry_nonneg := Int.natCast_nonneg 2
  failed := fun hzero ↦ absurd hzero two_ne_zero

variable {s : ReceiveState}

/-- A call requests what is left of the slot. -/
theorem InSlot.requested_eq (hslot : InSlot s) :
    (s.requested : ℤ) = httpMessageSize - s.received := by
  obtain ⟨hnonneg, hle, -⟩ := hslot
  have hsize : httpMessageSize = 512 := rfl
  rw [ReceiveState.requested, unsignedLong]
  rw [hsize] at hle ⊢
  omega

/-- The range of the next call is one of the slot. -/
theorem InSlot.targets_concat (hslot : InSlot s) :
    ∀ target ∈ s.targets ++ [(s.received, s.requested)],
      0 ≤ target.1 ∧ target.1 + target.2 ≤ httpMessageSize := by
  intro target hmem
  rcases List.mem_append.mp hmem with hearlier | hnext
  · exact hslot.targets target hearlier
  · rw [List.mem_singleton.mp hnext, hslot.requested_eq]
    exact ⟨hslot.nonneg, by omega⟩

theorem InSlot.fail (hslot : InSlot s) : InSlot s.fail :=
  { hslot with targets := hslot.targets_concat }

theorem InSlot.store (hslot : InSlot s) (piece : List Byte) : InSlot (s.store piece) :=
  { hslot with targets := hslot.targets_concat }

theorem Received.inSlot {progress : Progress ReceiveState ReceiveEnd}
    (hreceived : Received progress) : InSlot progress.state := by
  cases progress with
  | running s => exact hreceived.toInSlot
  | ended s result => exact hreceived.1

theorem returned_ne (status : RqstStat) : ReceiveEnd.returned status ≠ .conditionFailed := by
  intro heq
  cases heq

theorem Advances.received {progress : Progress ReceiveState ReceiveEnd}
    (hadvances : Advances s progress) : Received progress := by
  cases progress with
  | running t => exact hadvances.1
  | ended t result => exact hadvances

/-- A call that fails takes a retry, or it ends the loop. -/
theorem advances_of_error (behind : List Byte → Bool) (hs : Receiving s) (hmore : 0 < s.retry)
    (errno : Errno) :
    Advances s (handleOutcome behind s (.error errno : RecvOutcome s.requested)) := by
  have hagain : Receiving { s.fail with retry := s.retry - 1 } :=
    { hs.fail with
      retry_nonneg := Int.sub_nonneg_of_le hmore
      failed := fun _ ↦ rfl }
  have hless : remaining { s.fail with retry := s.retry - 1 } < remaining s := by
    show (httpMessageSize - s.received).toNat + (s.retry - 1).toNat < remaining s
    unfold remaining
    omega
  cases errno with
  | eintr => exact ⟨hagain, hless⟩
  | eagain => exact ⟨hagain, hless⟩
  | econnreset => exact ⟨hs.fail, returned_ne _⟩
  | ebadf => exact ⟨hs.fail, returned_ne _⟩
  | other => exact ⟨hs.fail, by decide⟩

/-- A piece takes room of the slot, or it ends the loop. -/
theorem advances_of_data (behind : List Byte → Bool) (hs : Receiving s) (hmore : 0 < s.retry)
    (piece : List Byte) (hfits : piece.length ≤ s.requested) :
    Advances s (handleOutcome behind s (.data piece hfits)) := by
  have hstored := hs.store piece
  rw [handleOutcome]
  split_ifs with hcomplete hnothing
  · exact ⟨{ hstored with }, returned_ne _⟩
  · exact ⟨hstored, returned_ne _⟩
  · have hpiece := List.length_pos_of_ne_nil hnothing
    have hrequested := hs.requested_eq
    have hnonneg := hs.nonneg
    have hnext : Receiving { s.store piece with received := s.received + piece.length } :=
      { hstored with
        nonneg := by
          show 0 ≤ s.received + piece.length
          omega
        le := by
          show s.received + piece.length ≤ httpMessageSize
          omega
        retry_nonneg := hs.retry_nonneg
        failed := fun hzero ↦ absurd hzero hmore.ne' }
    have hless :
        remaining { s.store piece with received := s.received + piece.length } < remaining s := by
      show (httpMessageSize - (s.received + piece.length)).toNat + s.retry.toNat < remaining s
      unfold remaining
      omega
    exact ⟨hnext, hless⟩

/-- The step of the loop. -/
theorem advances_receiveIteration (behind : List Byte → Bool) (recv : Recv) (hs : Receiving s) :
    Advances s (receiveIteration behind recv s) := by
  have hloop : ¬ s.retry < 0 := not_lt.mpr hs.retry_nonneg
  rw [receiveIteration, if_neg hloop]
  split_ifs with hgiveUp
  · exact ⟨hs.toInSlot, returned_ne _⟩
  · have hmore : 0 < s.retry :=
      lt_of_le_of_ne hs.retry_nonneg fun hzero ↦ hgiveUp ⟨hzero.symm, hs.failed hzero.symm⟩
    cases recv s.targets.length s.requested with
    | error errno => exact advances_of_error behind hs hmore errno
    | data piece hfits => exact advances_of_data behind hs hmore piece hfits

/-- The loop stays inside the slot. -/
theorem received_receive (behind : List Byte → Bool) (recv : Recv) (message : List Byte)
    (iterations : ℕ) : Received (receive behind recv message iterations) :=
  after_induction (receiving_startReceive message)
    (fun _ hs ↦ (advances_receiveIteration behind recv hs).received) iterations

/-- Whatever `recv` does, `receive_request` ends by a return or by the end of the program, never
because the condition of its loop fails. Up to then every call of `recv` is given a range of the
slot, and no more is received than the slot holds. -/
theorem receive_ends (behind : List Byte → Bool) (recv : Recv) (message : List Byte) :
    (∀ iterations, InSlot (receive behind recv message iterations).state) ∧
      ∃ iterations s result, receive behind recv message iterations = .ended s result ∧
        result ≠ .conditionFailed := by
  refine ⟨fun iterations ↦ (received_receive behind recv message iterations).inSlot, ?_⟩
  have hstep : ∀ s t, Receiving s → receiveIteration behind recv s = .running t →
      Receiving t ∧ remaining t < remaining s := by
    intro s t hs hnext
    have hadvances := advances_receiveIteration behind recv hs
    rw [hnext] at hadvances
    exact hadvances
  obtain ⟨iterations, s, result, hended⟩ :=
    exists_ended_of_measure remaining hstep (receiving_startReceive message)
  have hreceived := received_receive behind recv message iterations
  rw [receive, hended] at hreceived
  exact ⟨iterations, s, result, hended, hreceived.2⟩

end ImageApp.Connections
