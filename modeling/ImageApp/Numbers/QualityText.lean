import ImageApp.Foundations.DecimalPrefixes
import ImageApp.Server.Strings
import Mathlib.Algebra.Order.Floor.Ring

/-!
# The text of a quality

`convert_float_to_string` prints the decimals of a quality as an integer, and so without the zeros
at their start: `0.05` comes out as `0.5000000`. With exact fractions the text has its eight
decimals if and only if the quality is at least one tenth, `printsDecimals_iff`. The texts still
tell apart the qualities that differ in their first eight decimals.
-/

set_option autoImplicit false
set_option relaxedAutoImplicit false

namespace ImageApp.Numbers

open Foundations.BinaryRounding Foundations.CStrings Foundations.DecimalPrefixes
open Foundations.DecimalRows Server

/-- Fractions without rounding. -/
def exactArithmetic : Arithmetic where
  single := id
  double := id

/-- The text of a quality. -/
def printedQuality (beyond : List Byte) (q : ℚ) : List Byte :=
  untilNul (convertFloatToString exactArithmetic beyond q)

/-- The first eight decimals of a quality, as a number. -/
def eightDecimals (q : ℚ) : ℕ :=
  ⌊q * 10 ^ 8⌋₊

/-- A quality is printed as `"0."` and eight digits that denote its decimals, its eight bytes are
copied from inside the string that the digits were put in, and only a quality with the same decimals
is printed alike. -/
structure PrintsDecimals (beyond : List Byte) (q : ℚ) : Prop where
  text : ∃ digits, printedQuality beyond q = bytes "0." ++ digits ∧ digits.length = 8 ∧
    (∀ byte ∈ digits, isDigit byte) ∧ digitsValue digits = eightDecimals q
  inside : 8 ≤ (convertIntToString (decimalPart exactArithmetic q)).length
  distinct : ∀ beyond' q', 0 ≤ q' → q' < 1 →
    printedQuality beyond' q' = printedQuality beyond q → eightDecimals q' = eightDecimals q

variable {q : ℚ}

/-- The integer that is printed behind the point. -/
theorem decimalPart_exact (hnonneg : 0 ≤ q) (hlt : q < 1) :
    decimalPart exactArithmetic q = eightDecimals q := by
  have hscaled : 0 ≤ q * 10 ^ 8 := mul_nonneg hnonneg (by norm_num)
  have hzero := truncate_eq_zero hnonneg hlt
  simp only [decimalPart, exactArithmetic, id_eq, hzero, Int.cast_zero, sub_zero, truncate_intCast]
  rw [truncate, if_pos hscaled, eightDecimals, Int.natCast_floor_eq_floor hscaled]

theorem eightDecimals_lt (hlt : q < 1) : eightDecimals q < 10 ^ 8 := by
  rw [eightDecimals, Nat.floor_lt' (by norm_num)]
  push_cast
  linarith

/-- The decimals have no more than eight digits. -/
theorem digitCount_eightDecimals_le (hlt : q < 1) : digitCount (eightDecimals q) ≤ 8 :=
  (Nat.digits_length_le_iff (by decide) _).mpr (eightDecimals_lt hlt)

/-- What is printed is the numeral of the decimals, without leading zeros. -/
theorem printedQuality_eq (beyond : List Byte) (hnonneg : 0 ≤ q) (hlt : q < 1) :
    printedQuality beyond q = bytes "0." ++ numeral (eightDecimals q) := by
  rw [printedQuality, untilNul_convertFloatToString, qualityText,
    if_pos (truncate_eq_zero hnonneg hlt), decimalPart_exact hnonneg hlt, Int.toNat_natCast,
    List.take_of_length_le]
  rw [length_numeral]
  exact digitCount_eightDecimals_le hlt

/-- The texts of two qualities are alike only when their decimals are. -/
theorem eightDecimals_eq {beyond beyond' : List Byte} {q' : ℚ} (hnonneg : 0 ≤ q) (hlt : q < 1)
    (hnonneg' : 0 ≤ q') (hlt' : q' < 1)
    (hsame : printedQuality beyond' q' = printedQuality beyond q) :
    eightDecimals q' = eightDecimals q := by
  rw [printedQuality_eq _ hnonneg hlt, printedQuality_eq _ hnonneg' hlt',
    List.append_cancel_left_eq] at hsame
  exact numeral_injective hsame

/-- The numeral of the decimals has eight digits if and only if none of them is a leading zero. -/
theorem digitCount_eightDecimals_iff (hnonneg : 0 ≤ q) (hlt : q < 1) :
    digitCount (eightDecimals q) = 8 ↔ 1 / 10 ≤ q := by
  have hle := digitCount_eightDecimals_le hlt
  have hseven : digitCount (eightDecimals q) ≤ 7 ↔ eightDecimals q < 10 ^ 7 :=
    Nat.digits_length_le_iff (by decide) _
  have hfloor : 10 ^ 7 ≤ eightDecimals q ↔ (10 ^ 7 : ℕ) ≤ q * 10 ^ 8 :=
    Nat.le_floor_iff (mul_nonneg hnonneg (by norm_num))
  have htenth : ((10 ^ 7 : ℕ) : ℚ) ≤ q * 10 ^ 8 ↔ 1 / 10 ≤ q := by
    push_cast
    constructor
    · intro hscaled
      linarith
    · intro hscaled
      linarith
  rw [← htenth, ← hfloor]
  omega

/-- A quality is printed with its eight decimals if and only if it is at least one tenth. -/
theorem printsDecimals_iff (beyond : List Byte) (hnonneg : 0 ≤ q) (hlt : q < 1) :
    PrintsDecimals beyond q ↔ 1 / 10 ≤ q := by
  rw [← digitCount_eightDecimals_iff hnonneg hlt]
  constructor
  · intro hprints
    obtain ⟨digits, htext, hlength, -⟩ := hprints.text
    rw [printedQuality_eq beyond hnonneg hlt, List.append_cancel_left_eq] at htext
    rw [← length_numeral, htext, hlength]
  · intro height
    refine ⟨⟨numeral (eightDecimals q), printedQuality_eq beyond hnonneg hlt, ?_, ?_, ?_⟩, ?_, ?_⟩
    · rw [length_numeral, height]
    · exact fun byte hbyte ↦ isDigit_of_mem_numeral hbyte
    · exact digitsValue_numeral _
    · rw [decimalPart_exact hnonneg hlt, convertIntToString_eq, Int.toNat_natCast,
        List.length_append, length_numeral, height]
      decide
    · exact fun beyond' q' hnonneg' hlt' ↦ eightDecimals_eq hnonneg hlt hnonneg' hlt'

/-- One half. -/
theorem printsDecimals_half : PrintsDecimals [] (1 / 2) ↔ (1 / 10 : ℚ) ≤ 1 / 2 :=
  printsDecimals_iff [] (by norm_num) (by norm_num)

/-- The quality 0.05 is printed with seven digits. -/
theorem not_printsDecimals :
    ¬ ∀ (beyond : List Byte) (q : ℚ), 0 ≤ q → q < 1 → PrintsDecimals beyond q := by
  intro hall
  have hnonneg : (0 : ℚ) ≤ 1 / 20 := by norm_num
  have hlt : (1 / 20 : ℚ) < 1 := by norm_num
  obtain ⟨digits, htext, hlength, -⟩ := (hall [] (1 / 20) hnonneg hlt).text
  have hdecimals : eightDecimals (1 / 20) = 5000000 := by
    rw [eightDecimals, Nat.floor_eq_iff (by norm_num)]
    norm_num
  rw [printedQuality_eq [] hnonneg hlt, List.append_cancel_left_eq, hdecimals] at htext
  rw [← htext, length_numeral] at hlength
  exact absurd hlength (by decide)

end ImageApp.Numbers
