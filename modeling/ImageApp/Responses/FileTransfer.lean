import ImageApp.Server.Transmission

/-!
# A file in pieces

`sendfile` may send less than it was asked for, and then `send_file_fd` calls it again. Both of them
advance the offset, so the second call starts behind bytes that were never sent.

`sendFileLoop_eq_none` is the invariant of such a transfer: the offset is twice the number of bytes
sent, so what is left of the file is too little to reach its size, and the loop does not end.
`sendsFile_iff` is the resulting condition.
-/

set_option autoImplicit false
set_option relaxedAutoImplicit false

namespace ImageApp.Responses

open Foundations.CStrings Server

/-- `sendfile` on a file of the given size: in front of the end it sends at least one byte and not
more than it is asked for or than there are, and at the end it sends nothing. -/
structure PartialTransfers (size : ℕ) (sendfile : Sendfile) : Prop where
  inside : ∀ call offset count, offset < size → 0 < count →
    ∃ v, sendfile call offset count = .sent v ∧ 1 ≤ v ∧ v ≤ min count (size - offset)
  behind : ∀ call offset count, size ≤ offset → sendfile call offset count = .sent 0

/-- The loop ends, every byte of the file was sent once and in order, and the result is the size. -/
def SendsFile (sendfile : Sendfile) (file : List Byte) : Prop :=
  ∃ fuel, sendFileFd sendfile file file.length fuel = some ((file.length : ℤ), file)

/-- After a partial transfer the loop does not end. -/
theorem sendFileLoop_eq_none {sendfile : Sendfile} {file sent : List Byte} {size call len : ℕ}
    (hpieces : PartialTransfers size sendfile) (hpos : 0 < len) (hlen : len < size) (fuel : ℕ) :
    sendFileLoop sendfile file size call len (2 * len) sent fuel = none := by
  induction fuel generalizing call len sent with
  | zero => rfl
  | succ fuel ih =>
    rw [sendFileLoop, if_pos hlen]
    rcases Nat.lt_or_ge (2 * len) size with hinside | hbehind
    · obtain ⟨v, hsent, hone, hmost⟩ := hpieces.inside call _ (size - len) hinside (by omega)
      have hdouble : 2 * len + v + v = 2 * (len + v) := by omega
      simp only [hsent, hdouble]
      exact ih (by omega) (by omega)
    · rw [hpieces.behind call _ (size - len) hbehind]
      exact ih hpos hlen

/-- A first transfer of the whole file is the only one. -/
theorem sendFileFd_of_complete {sendfile : Sendfile} {file : List Byte} (hfile : file ≠ [])
    (hcomplete : sendfile 0 0 file.length = .sent file.length) :
    sendFileFd sendfile file file.length 2 = some ((file.length : ℤ), file) := by
  have hpos : 0 < file.length := List.length_pos_of_ne_nil hfile
  rw [sendFileFd, sendFileLoop, if_pos hpos, Nat.sub_zero, hcomplete]
  simp [sendFileLoop]

/-- The file is sent if and only if it is empty or the first transfer sends all of it. -/
theorem sendsFile_iff {sendfile : Sendfile} {file : List Byte}
    (hpieces : PartialTransfers file.length sendfile) :
    SendsFile sendfile file ↔ file = [] ∨ sendfile 0 0 file.length = .sent file.length := by
  by_cases hfile : file = []
  · refine iff_of_true ⟨1, ?_⟩ (Or.inl hfile)
    rw [hfile]
    rfl
  · have hpos : 0 < file.length := List.length_pos_of_ne_nil hfile
    rw [or_iff_right hfile]
    constructor
    · rintro ⟨fuel, hended⟩
      by_contra hincomplete
      obtain ⟨v, hsent, hone, hmost⟩ := hpieces.inside 0 0 file.length hpos hpos
      have hless : v < file.length := by
        refine Nat.lt_of_le_of_ne (by omega) fun heq ↦ hincomplete ?_
        rw [hsent, heq]
      cases fuel with
      | zero => simp [sendFileFd, sendFileLoop] at hended
      | succ fuel =>
        have hdouble : 0 + v + v = 2 * (0 + v) := by omega
        rw [sendFileFd, sendFileLoop, if_pos hpos, Nat.sub_zero, hsent] at hended
        simp only [hdouble, sendFileLoop_eq_none hpieces (by omega : 0 < 0 + v)
          (by omega)] at hended
        simp at hended
    · intro hcomplete
      exact ⟨2, sendFileFd_of_complete hfile hcomplete⟩

/-- A call of `sendfile` that sends what it is asked for, as far as there is a file of ten bytes. -/
def wholeTransfer : Sendfile :=
  fun _ offset count ↦ .sent (min count (10 - offset))

/-- A file of ten bytes that is sent at once. -/
theorem sendsFile_whole :
    PartialTransfers (bytes "0123456789").length wholeTransfer ∧
      (SendsFile wholeTransfer (bytes "0123456789") ↔
        bytes "0123456789" = [] ∨ wholeTransfer 0 0 (bytes "0123456789").length =
          .sent (bytes "0123456789").length) ∧
      SendsFile wholeTransfer (bytes "0123456789") := by
  have hlength : (bytes "0123456789").length = 10 := by decide
  have hpieces : PartialTransfers (bytes "0123456789").length wholeTransfer := by
    rw [hlength]
    refine ⟨fun call offset count hoffset hcount ↦ ?_, fun call offset count hoffset ↦ ?_⟩
    · exact ⟨_, rfl, by omega, le_rfl⟩
    · rw [wholeTransfer, Nat.sub_eq_zero_of_le hoffset, Nat.min_zero]
  exact ⟨hpieces, sendsFile_iff hpieces, (sendsFile_iff hpieces).mpr (Or.inr (by decide))⟩

/-- A call of `sendfile` that sends one byte of a file of two. -/
def byteTransfer : Sendfile :=
  fun _ offset _ ↦ .sent (min 1 (2 - offset))

theorem partialTransfers_byteTransfer : PartialTransfers 2 byteTransfer := by
  refine ⟨fun call offset count hoffset hcount ↦ ⟨_, rfl, by omega, by omega⟩,
    fun call offset count hoffset ↦ ?_⟩
  rw [byteTransfer, Nat.sub_eq_zero_of_le hoffset, Nat.min_zero]

/-- When the first of two bytes was sent alone, the loop asks for the second one behind the end of
the file and does not end. -/
theorem not_sendsFile :
    (¬ ∀ (sendfile : Sendfile) (file : List Byte), PartialTransfers file.length sendfile →
      SendsFile sendfile file) ∧
      ∀ fuel, sendFileFd byteTransfer (bytes "ab") 2 fuel = none := by
  have hlength : (bytes "ab").length = 2 := by decide
  constructor
  · intro hsends
    have hpieces : PartialTransfers (bytes "ab").length byteTransfer := by
      rw [hlength]
      exact partialTransfers_byteTransfer
    rcases (sendsFile_iff hpieces).mp (hsends _ _ hpieces) with hempty | hcomplete
    · exact absurd hempty (by decide)
    · exact absurd hcomplete (by decide)
  · intro fuel
    cases fuel with
    | zero => rfl
    | succ fuel =>
      exact @sendFileLoop_eq_none byteTransfer (bytes "ab") _ 2 1 1 partialTransfers_byteTransfer
        (by decide) (by decide) fuel

end ImageApp.Responses
