import ImageApp.Foundations.DecimalRows
import Mathlib.Algebra.Order.Field.Rat
import Mathlib.Tactic.Linarith
import Mathlib.Tactic.NormNum
import Mathlib.Tactic.Positivity
import Mathlib.Tactic.Ring

/-!
# Decimal numerals at the start of a text

A decimal numeral in ASCII is a row of digits with or without a point and further digits behind it.
`longestDecimal` reads the longest one at the start of a text, and `longestDecimal_text` says that a
numeral is read as itself. `value_tail_eq_iff` is about a numeral between 0 and 1 that is read from
its second byte on: the value is the same if and only if the first byte is a zero.
-/

set_option autoImplicit false
set_option relaxedAutoImplicit false

namespace ImageApp.Foundations.DecimalPrefixes

open CStrings DecimalRows

/-- The byte `'.'`. -/
abbrev point : Byte := 46

/-- The byte is an ASCII digit. -/
def isDigit (byte : Byte) : Bool :=
  48 ≤ byte.toNat ∧ byte.toNat ≤ 57

/-- The number that a row of digits denotes. -/
def digitsValue (digits : List Byte) : ℕ :=
  digits.foldl (fun total byte ↦ 10 * total + (byte.toNat - 48)) 0

/-- The digits in front of the point, and those behind it if there is one. -/
structure Decimal where
  whole : List Byte
  fraction : Option (List Byte)
  deriving DecidableEq

namespace Decimal

/-- A decimal as text. -/
def text (d : Decimal) : List Byte :=
  d.whole ++ (d.fraction.map (point :: ·)).getD []

/-- The digits behind the point. -/
def decimals (d : Decimal) : List Byte :=
  d.fraction.getD []

/-- The number that a decimal denotes. -/
def value (d : Decimal) : ℚ :=
  digitsValue d.whole + digitsValue d.decimals / 10 ^ d.decimals.length

/-- The parts of a decimal are digits, and there is one. -/
structure IsNumeral (d : Decimal) : Prop where
  whole_digits : ∀ byte ∈ d.whole, isDigit byte
  decimals_digits : ∀ byte ∈ d.decimals, isDigit byte
  some_digit : d.whole ≠ [] ∨ d.decimals ≠ []

end Decimal

/-- The longest decimal at the start of a text. -/
def longestDecimal (text : List Byte) : Decimal where
  whole := text.takeWhile isDigit
  fraction :=
    let rest := text.dropWhile isDigit
    if rest.head? = some point then some (rest.tail.takeWhile isDigit) else none

/-- What an exact `strtof` reads: the value of the longest decimal, without an error. -/
def decimalPrefix (text : List Byte) : ℚ × Bool :=
  ((longestDecimal text).value, false)

theorem isDigit_point : isDigit point = false := by
  decide

theorem takeWhile_eq_self {digits : List Byte} (hdigits : ∀ byte ∈ digits, isDigit byte) :
    digits.takeWhile isDigit = digits :=
  List.takeWhile_eq_self_iff.mpr hdigits

/-- A decimal is read as itself. -/
theorem longestDecimal_text {d : Decimal} (hwhole : ∀ byte ∈ d.whole, isDigit byte)
    (hdecimals : ∀ byte ∈ d.decimals, isDigit byte) : longestDecimal d.text = d := by
  obtain ⟨whole, fraction⟩ := d
  cases fraction with
  | none =>
    have htake := takeWhile_eq_self hwhole
    have hdrop : whole.dropWhile isDigit = [] := List.dropWhile_eq_nil_iff.mpr hwhole
    simp [longestDecimal, Decimal.text, htake, hdrop]
  | some fraction =>
    have htake := takeWhile_eq_self hdecimals
    rw [longestDecimal, Decimal.text]
    simp only [Decimal.decimals, Option.getD_some, Option.map_some] at htake ⊢
    rw [List.takeWhile_append_of_pos hwhole, List.dropWhile_append_of_pos hwhole]
    simp [isDigit_point, htake]

/-- A numeral denotes its number. -/
theorem digitsValue_numeral (value : ℕ) : digitsValue (numeral value) = value := by
  induction value using Nat.strongRecOn with
  | ind value ih =>
    rcases Nat.eq_zero_or_pos value with rfl | hpos
    · rw [numeral_zero]
      rfl
    · have hten : value % 10 < 10 := Nat.mod_lt _ (by decide)
      have htenth := ih (value / 10) (by omega)
      rw [digitsValue] at htenth
      rw [numeral_of_pos hpos, digitsValue, List.foldl_append, htenth, List.foldl_cons,
        List.foldl_nil, toNat_digitByte hten]
      omega

/-- The bytes of a numeral are digits. -/
theorem isDigit_of_mem_numeral {value : ℕ} {byte : Byte} (hbyte : byte ∈ numeral value) :
    isDigit byte = true := by
  obtain ⟨digit, hten, rfl⟩ := exists_digit_of_mem_numeral hbyte
  rw [isDigit, toNat_digitByte hten]
  exact decide_eq_true ⟨by omega, by omega⟩

/-- A numeral is not empty. -/
theorem Decimal.IsNumeral.text_ne_nil {d : Decimal} (hnumeral : d.IsNumeral) : d.text ≠ [] := by
  obtain ⟨whole, fraction⟩ := d
  cases fraction with
  | none => simpa [Decimal.text, Decimal.decimals] using hnumeral.some_digit
  | some fraction => simp [Decimal.text]

/-! ### Values -/

theorem foldl_digits (digits : List Byte) (start : ℕ) :
    digits.foldl (fun total byte ↦ 10 * total + (byte.toNat - 48)) start =
      start * 10 ^ digits.length + digitsValue digits := by
  induction digits generalizing start with
  | nil => simp [digitsValue]
  | cons first digits ih =>
    have hfirst : digitsValue (first :: digits) =
        (10 * 0 + (first.toNat - 48)) * 10 ^ digits.length + digitsValue digits := by
      rw [digitsValue, List.foldl_cons, ih]
    rw [List.foldl_cons, ih, hfirst, List.length_cons]
    ring

theorem digitsValue_cons (byte : Byte) (digits : List Byte) :
    digitsValue (byte :: digits) =
      (byte.toNat - 48) * 10 ^ digits.length + digitsValue digits := by
  rw [digitsValue, List.foldl_cons, foldl_digits, Nat.mul_zero, Nat.zero_add]

theorem value_cons (byte : Byte) (whole : List Byte) (fraction : Option (List Byte)) :
    Decimal.value ⟨byte :: whole, fraction⟩ =
      (byte.toNat - 48 : ℕ) * 10 ^ whole.length + Decimal.value ⟨whole, fraction⟩ := by
  simp only [Decimal.value, Decimal.decimals, digitsValue_cons]
  push_cast
  ring

theorem value_nonneg (d : Decimal) : 0 ≤ d.value := by
  rw [Decimal.value]
  positivity

/-! ### A numeral without its first byte -/

/-- What is read behind the first digit of a numeral. -/
theorem longestDecimal_tail_cons {byte : Byte} {whole : List Byte} {fraction : Option (List Byte)}
    (hnumeral : Decimal.IsNumeral ⟨byte :: whole, fraction⟩) :
    longestDecimal (Decimal.text ⟨byte :: whole, fraction⟩).tail = ⟨whole, fraction⟩ :=
  @longestDecimal_text ⟨whole, fraction⟩
    (fun digit hdigit ↦ hnumeral.whole_digits digit (List.mem_cons_of_mem _ hdigit))
    hnumeral.decimals_digits

/-- What is read behind the point of a numeral that starts with it: its decimals as a whole
number. -/
theorem longestDecimal_tail_nil {fraction : List Byte}
    (hnumeral : Decimal.IsNumeral ⟨[], some fraction⟩) :
    longestDecimal (Decimal.text ⟨[], some fraction⟩).tail = ⟨fraction, none⟩ := by
  have hread := @longestDecimal_text ⟨fraction, none⟩ hnumeral.decimals_digits
    (fun _ hdigit ↦ absurd hdigit List.not_mem_nil)
  simpa [Decimal.text] using hread

theorem digit_of_isDigit {byte : Byte} (hdigit : isDigit byte) (hne : byte ≠ 48) :
    1 ≤ byte.toNat - 48 := by
  rw [isDigit, decide_eq_true_iff] at hdigit
  have hvalue : byte.toNat ≠ 48 := fun heq ↦ hne (UInt8.toNat_inj.mp heq)
  omega

/-- Decimals have a smaller value behind a point than as a whole number. -/
theorem value_lt_of_decimals {fraction : List Byte}
    (hnumeral : Decimal.IsNumeral ⟨[], some fraction⟩)
    (hpos : 0 < Decimal.value ⟨[], some fraction⟩) :
    Decimal.value ⟨[], some fraction⟩ < Decimal.value ⟨fraction, none⟩ ∧
      0 < Decimal.value ⟨fraction, none⟩ := by
  have hsome : fraction ≠ [] := hnumeral.some_digit.resolve_left (fun hwhole ↦ hwhole rfl)
  have hvalue : Decimal.value ⟨[], some fraction⟩ =
      digitsValue fraction / 10 ^ fraction.length := by
    simp [Decimal.value, Decimal.decimals, digitsValue]
  have hread : Decimal.value ⟨fraction, none⟩ = digitsValue fraction := by
    simp [Decimal.value, Decimal.decimals, digitsValue]
  have hnumber : (0 : ℚ) < digitsValue fraction := by
    rw [hvalue] at hpos
    by_contra hzero
    have hnone : (digitsValue fraction : ℚ) = 0 :=
      le_antisymm (not_lt.mp hzero) (Nat.cast_nonneg _)
    rw [hnone, zero_div] at hpos
    exact lt_irrefl 0 hpos
  have hten : (1 : ℚ) < 10 ^ fraction.length :=
    one_lt_pow₀ (by norm_num) (List.length_pos_of_ne_nil hsome).ne'
  rw [hread, hvalue]
  exact ⟨div_lt_self hnumber hten, hnumber⟩

/-- A positive numeral up to 1 that is read from its second byte on has the same value if and only
if its first byte is a zero. With another first byte the value that is read is 0 only for 1. -/
theorem value_tail_eq_iff {d : Decimal} (hnumeral : d.IsNumeral) (hpos : 0 < d.value)
    (hle : d.value ≤ 1) :
    ((longestDecimal d.text.tail).value = d.value ↔ d.whole.head? = some 48) ∧
      (d.whole.head? ≠ some 48 → (longestDecimal d.text.tail).value = 0 → d.value = 1) := by
  obtain ⟨whole, fraction⟩ := d
  cases whole with
  | nil =>
    cases fraction with
    | none =>
      rcases hnumeral.some_digit with hwhole | hdecimals
      · exact absurd rfl hwhole
      · exact absurd rfl hdecimals
    | some fraction =>
      obtain ⟨hlarger, hnumber⟩ := value_lt_of_decimals hnumeral hpos
      rw [longestDecimal_tail_nil hnumeral]
      exact ⟨iff_of_false hlarger.ne' (fun hhead ↦ nomatch hhead),
        fun _ hzero ↦ absurd hzero hnumber.ne'⟩
  | cons byte whole =>
    rw [longestDecimal_tail_cons hnumeral, value_cons]
    rcases eq_or_ne byte 48 with rfl | hne
    · simp
    · have hdigit := digit_of_isDigit (hnumeral.whole_digits byte List.mem_cons_self) hne
      have hlarge : (1 : ℚ) ≤ (byte.toNat - 48 : ℕ) * 10 ^ whole.length := by
        exact_mod_cast Nat.one_le_iff_ne_zero.mpr (by positivity)
      have hrest := value_nonneg ⟨whole, fraction⟩
      rw [value_cons] at hle
      refine ⟨iff_of_false (fun hsame ↦ ?_) (fun hhead ↦ ?_), fun _ hzero ↦ ?_⟩
      · linarith
      · exact hne (Option.some_inj.mp hhead)
      · linarith

end ImageApp.Foundations.DecimalPrefixes
