import ImageApp.Server.DigitLoops
import ImageApp.Server.HandleDB

/-!
# Numbers that are printed and parsed

`parse_int` reads back what `convert_int_to_string` prints, the empty string of zero included. The
loop that fills in the digits is only kept inside the allocation by the count of the first loop,
since its own test of the index never fails: `fillsDigits` says that it goes round exactly as often
as the first loop.
-/

set_option autoImplicit false
set_option relaxedAutoImplicit false

namespace ImageApp.Numbers

open Foundations.CStrings Foundations.DecimalRows Foundations.LoopRuns Server

/-- `parse_int` reads a numeral as its number. -/
theorem parseInt_numeral {value : ℕ} (hint : IsInt value) : parseInt (numeral value) = value := by
  rcases Nat.eq_zero_or_pos value with rfl | hpos
  · rw [numeral_zero]
    decide
  · have htext : intText value = numeral value := by
      rw [intText, if_neg (by omega), if_neg (by omega), List.nil_append, Int.natAbs_natCast]
    rw [← htext, parseInt_intText hint]

/-- The loop that fills in the digits of a number goes round as often as the first loop has counted,
every time it writes to an index below that count, and it leaves what is returned but for the NUL.
-/
def FillsDigits (size : ℤ) : Prop :=
  ∃ s, after (fillIteration (countCipher size)) (startFill (countCipher size) size)
      (countCipher size) = .running s ∧
    fillIteration (countCipher size) s = .ended s () ∧
    s.indices.length = countCipher size ∧ (∀ index ∈ s.indices, index < countCipher size) ∧
    s.strNumber.set (countCipher size) 0 = convertIntToString size

/-- A number with a count of digits that is a `size_t`. -/
theorem fillsDigits_natCast {value : ℕ} (hcount : digitCount value < 2 ^ 64) :
    FillsDigits value := by
  have hafter : after (fillIteration (digitCount value)) (startFill (digitCount value) value)
      (digitCount value) = _ :=
    after_fill value (Nat.add_comm 1 _) hcount
  unfold FillsDigits
  rw [countCipher_natCast]
  refine ⟨_, hafter, fillIteration_of_zero rfl, ?_, fun index hindex ↦ ?_, ?_⟩
  · rw [List.nil_append, List.length_reverse, List.length_range]
  · rw [List.nil_append, List.mem_reverse, List.mem_range] at hindex
    exact hindex
  · rw [convertIntToString, countCipher_natCast]

/-- A nonnegative `int` is printed by filling in its digits inside the allocation, it is parsed back
from its text, and as a `long` it is printed alike. -/
theorem parseInt_convertIntToString {n : ℤ} (hnonneg : 0 ≤ n) (hle : n ≤ 2 ^ 31 - 1) :
    parseInt (untilNul (convertIntToString n)) = n ∧ FillsDigits n ∧
      convertLongToString n = convertIntToString n := by
  obtain ⟨value, rfl⟩ := Int.eq_ofNat_of_zero_le hnonneg
  have hint : IsInt value := ⟨by omega, by omega⟩
  have hcount : digitCount value ≤ 10 :=
    (Nat.digits_length_le_iff (by decide) value).mpr (by omega)
  refine ⟨?_, fillsDigits_natCast (by omega), rfl⟩
  rw [untilNul_convertIntToString, Int.toNat_natCast, parseInt_numeral hint]

/-- The largest `int`. -/
theorem parseInt_convertIntToString_max :
    parseInt (untilNul (convertIntToString 2147483647)) = 2147483647 ∧ FillsDigits 2147483647 ∧
      convertLongToString 2147483647 = convertIntToString 2147483647 :=
  parseInt_convertIntToString (by decide) (by decide)

end ImageApp.Numbers
