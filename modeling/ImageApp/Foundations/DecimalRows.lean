import ImageApp.Foundations.CStrings
import Mathlib.Data.Nat.Digits.Lemmas

/-!
# Decimal numerals written in a row

`numeral` is the decimal numeral of a number in ASCII without leading zeros, so the numeral of zero
is empty. Several numerals written one after the other without a separator read as one number, the
`row` of their values, and the text determines nothing else: `flatMap_numeral_eq_iff` says that two
lists of numbers are written alike exactly when their rows are equal, and `eq_of_row_eq` that the
row determines the numbers together with their digit counts.
-/

set_option autoImplicit false
set_option relaxedAutoImplicit false

namespace ImageApp.Foundations.DecimalRows

open CStrings

/-- The ASCII byte of a decimal digit. -/
def digitByte (digit : ℕ) : Byte :=
  (48 + digit).toUInt8

/-- The decimal numeral of a number, without leading zeros; the numeral of zero is empty. -/
def numeral (value : ℕ) : List Byte :=
  ((Nat.digits 10 value).map digitByte).reverse

/-- The number of decimal digits of a number; zero has none. -/
def digitCount (value : ℕ) : ℕ :=
  (Nat.digits 10 value).length

/-- The number that a row of numerals reads as. -/
def row (values : List ℕ) : ℕ :=
  values.foldl (fun total value ↦ value + 10 ^ digitCount value * total) 0

/-- A digit byte as a number. -/
theorem toNat_digitByte {digit : ℕ} (hdigit : digit < 10) :
    (digitByte digit).toNat = 48 + digit := by
  simp only [digitByte, Nat.toUInt8, UInt8.toNat_ofNat']
  omega

@[simp] theorem numeral_zero : numeral 0 = [] := by
  simp [numeral]

@[simp] theorem length_numeral (value : ℕ) : (numeral value).length = digitCount value := by
  simp [numeral, digitCount]

/-- A positive number has one digit more than its tenth. -/
theorem digitCount_of_pos {value : ℕ} (hpos : 0 < value) :
    digitCount value = digitCount (value / 10) + 1 := by
  rw [digitCount, Nat.digits_def' (by norm_num) hpos, List.length_cons, digitCount]

/-- The numeral of a positive number is that of its tenth, and the last digit. -/
theorem numeral_of_pos {value : ℕ} (hpos : 0 < value) :
    numeral value = numeral (value / 10) ++ [digitByte (value % 10)] := by
  rw [numeral, Nat.digits_def' (by norm_num) hpos, List.map_cons, List.reverse_cons, numeral]

/-- Every byte of a numeral is a digit byte. -/
theorem exists_digit_of_mem_numeral {value : ℕ} {byte : Byte} (hbyte : byte ∈ numeral value) :
    ∃ digit < 10, byte = digitByte digit := by
  obtain ⟨digit, hdigit, rfl⟩ := List.mem_map.mp (List.mem_reverse.mp hbyte)
  exact ⟨digit, Nat.digits_lt_base (by norm_num) hdigit, rfl⟩

/-- A numeral holds no byte outside the ten digits. -/
theorem notMem_numeral {byte : Byte} (hbyte : byte.toNat < 48 ∨ 57 < byte.toNat) (value : ℕ) :
    byte ∉ numeral value := by
  intro hmem
  obtain ⟨digit, hdigit, rfl⟩ := exists_digit_of_mem_numeral hmem
  rw [toNat_digitByte hdigit] at hbyte
  omega

/-- Reading the digit bytes back gives the digits. -/
theorem map_toNat_sub_map_digitByte (value : ℕ) :
    ((Nat.digits 10 value).map digitByte).map (fun byte ↦ byte.toNat - 48) =
      Nat.digits 10 value := by
  rw [List.map_map]
  refine (List.map_congr_left fun digit hdigit ↦ ?_).trans (List.map_id _)
  rw [Function.comp_apply, toNat_digitByte (Nat.digits_lt_base (by norm_num) hdigit), id]
  omega

/-- A numeral determines its number. -/
theorem numeral_injective : Function.Injective numeral := by
  intro first second h
  have hdigits := congrArg (List.map fun byte : Byte ↦ byte.toNat - 48) (List.reverse_injective h)
  rw [map_toNat_sub_map_digitByte, map_toNat_sub_map_digitByte] at hdigits
  exact Nat.digits_inj_iff.mp hdigits

/-- Two numerals in a row are one numeral. -/
theorem numeral_append_numeral (first second : ℕ) :
    numeral first ++ numeral second = numeral (second + 10 ^ digitCount second * first) := by
  rw [numeral, numeral, numeral, digitCount, ← Nat.digits_append_digits (by norm_num),
    List.map_append, List.reverse_append]

/-- The numerals of a list of numbers, written in a row, are the numeral of the row. -/
theorem flatMap_numeral (values : List ℕ) : values.flatMap numeral = numeral (row values) := by
  induction values using List.reverseRecOn with
  | nil => simp [row]
  | append_singleton values value ih =>
    rw [List.flatMap_append, ih, List.flatMap_singleton, numeral_append_numeral, row, row,
      List.foldl_append]
    rfl

/-- Two lists of numbers are written alike exactly when they read as the same row. -/
theorem flatMap_numeral_eq_iff (first second : List ℕ) :
    first.flatMap numeral = second.flatMap numeral ↔ row first = row second := by
  rw [flatMap_numeral, flatMap_numeral, numeral_injective.eq_iff]

/-- Numerals in a row are told apart by their digit counts. -/
theorem eq_of_flatMap_numeral_eq {first second : List ℕ}
    (hcounts : first.map digitCount = second.map digitCount)
    (heq : first.flatMap numeral = second.flatMap numeral) : first = second := by
  induction first generalizing second with
  | nil => exact (List.map_eq_nil_iff.mp hcounts.symm).symm
  | cons value first ih =>
    cases second with
    | nil => simp at hcounts
    | cons value' second =>
      rw [List.map_cons, List.map_cons, List.cons.injEq] at hcounts
      rw [List.flatMap_cons, List.flatMap_cons] at heq
      obtain ⟨hnumeral, hrest⟩ := List.append_inj heq (by simpa using hcounts.1)
      rw [numeral_injective hnumeral, ih hcounts.2 hrest]

/-- A row determines its numbers once the digit counts of all but the first are known. -/
theorem eq_of_row_eq {value value' : ℕ} {first second : List ℕ}
    (hcounts : first.map digitCount = second.map digitCount)
    (hrow : row (value :: first) = row (value' :: second)) : value = value' ∧ first = second := by
  have hlength : ∀ values : List ℕ,
      (values.flatMap numeral).length = (values.map digitCount).sum := by
    intro values
    rw [List.length_flatMap]
    simp only [length_numeral]
  rw [← flatMap_numeral_eq_iff, List.flatMap_cons, List.flatMap_cons] at hrow
  obtain ⟨hvalue, hrest⟩ := List.append_inj' hrow (by rw [hlength, hlength, hcounts])
  exact ⟨numeral_injective hvalue, eq_of_flatMap_numeral_eq hcounts hrest⟩

end ImageApp.Foundations.DecimalRows
