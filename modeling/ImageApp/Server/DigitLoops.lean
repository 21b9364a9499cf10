import ImageApp.Server.Senders

/-!
# The loop that fills in the digits

The second loop of `convert_int_to_string` and `convert_long_to_string`, one iteration after the
other, with the guard of the source and the indices that it writes to. The guard compares a `size_t`
with zero. `after_fill` says where the loop is when the value is used up, and that it has written
what `writeCiphers` writes.
-/

set_option autoImplicit false
set_option relaxedAutoImplicit false

namespace ImageApp.Server

open Foundations.CStrings Foundations.DecimalRows Foundations.LoopRuns Senders

/-- The variables of the loop, with the indices that were written to. -/
structure FillState where
  value : ℤ
  i : ℤ
  strNumber : List Byte
  indices : List ℕ
  deriving DecidableEq

/-- The loop at its start, on an allocation of zero bytes. -/
def startFill (countCipher : ℕ) (value : ℤ) : FillState where
  value := value
  i := 1
  strNumber := zeros (countCipher + 1)
  indices := []

/-- An iteration of the loop. -/
def fillIteration (countCipher : ℕ) (s : FillState) : Progress FillState Unit :=
  if 0 ≤ unsignedLong (countCipher - s.i) ∧ 0 < s.value then
    .running
      { value := s.value / 10
        i := s.i + 1
        strNumber := s.strNumber.set (unsignedLong (countCipher - s.i))
          (48 + (s.value % 10).toNat).toUInt8
        indices := s.indices ++ [unsignedLong (countCipher - s.i)] }
  else .ended s ()

/-- The loop ends when the value is used up; its other test never fails. -/
theorem fillIteration_of_zero {countCipher : ℕ} {s : FillState} (hvalue : s.value = 0) :
    fillIteration countCipher s = .ended s () := by
  have hnot : ¬ 0 < s.value := by omega
  exact if_neg fun hguard ↦ hnot hguard.2

/-- An iteration that writes the digit at the index `count - i`. -/
theorem fillIteration_of_pos {count i value : ℕ} {strNumber : List Byte} {indices : List ℕ}
    (hvalue : 0 < value) (hi : i ≤ count) (hcount : count < 2 ^ 64) :
    fillIteration count ⟨value, i, strNumber, indices⟩ =
      .running ⟨(value / 10 : ℕ), (i + 1 : ℕ),
        strNumber.set (count - i) (digitByte (value % 10)), indices ++ [count - i]⟩ := by
  have hindex : unsignedLong ((count : ℤ) - i) = count - i := by
    rw [← Nat.cast_sub hi, unsignedLong_natCast (by omega)]
  have hpos : (0 : ℤ) < value := by omega
  simp only [fillIteration, hindex, toUInt8_emod_ten]
  rw [if_pos ⟨Nat.zero_le _, hpos⟩]
  rfl

/-- After as many iterations as the value has digits the value is used up, and the indices went down
from the first one to zero. -/
theorem after_fill {count i : ℕ} (value : ℕ) {strNumber : List Byte} {indices : List ℕ}
    (hi : i + digitCount value = count + 1) (hcount : count < 2 ^ 64) :
    after (fillIteration count) ⟨value, i, strNumber, indices⟩ (digitCount value) =
      .running ⟨0, (count + 1 : ℕ), writeCiphers count value i strNumber,
        indices ++ (List.range (digitCount value)).reverse⟩ := by
  induction value using Nat.strongRecOn generalizing i strNumber indices with
  | ind value ih =>
    rw [writeCiphers]
    by_cases hzero : value = 0
    · subst hzero
      have hnone : digitCount 0 = 0 := by simp [digitCount]
      rw [hnone] at hi ⊢
      simp [← hi]
    · have hpos : 0 < value := by omega
      have hposInt : (0 : ℤ) < value := by omega
      have hdigits := digitCount_of_pos hpos
      have hfirst : after (fillIteration count) ⟨value, i, strNumber, indices⟩ 1 = _ :=
        fillIteration_of_pos hpos (by omega) hcount
      rw [hdigits, Nat.add_comm _ 1, after_add_of_running hfirst, ih _ (by omega) (by omega),
        if_pos hposInt, toUInt8_emod_ten, show (value : ℤ) / 10 = (value / 10 : ℕ) by omega]
      have hindex : count - i = digitCount (value / 10) := by omega
      rw [hindex, Nat.add_comm 1, List.range_succ, List.reverse_append, List.append_assoc]
      rfl

end ImageApp.Server
