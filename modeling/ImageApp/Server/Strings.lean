import ImageApp.Foundations.BinaryRounding
import ImageApp.Foundations.DecimalRows
import ImageApp.Server.Config

/-!
# Building the names of images

The string builders of `Strings.c` and the two paths that `handle_client` puts together from them. A
function that returns a pointer returns here the bytes of the allocation that it points to, and a
caller reads the string in front of the first NUL.

`convertIntToString_eq` identifies the digits that the two loops of `convert_int_to_string` write
with the numeral of the number, and `untilNul_convertFloatToString` does the same for a quality:
`convert_float_to_string` copies eight bytes of the digits of its decimal part, which is more than
the allocation holds when there are few digits, but the string ends before the bytes it should not
have read. `buildImageNameCache_eq` is the resulting key.
-/

set_option autoImplicit false
set_option relaxedAutoImplicit false

namespace ImageApp.Server

open Foundations.CStrings Foundations.BinaryRounding Foundations.DecimalRows

/-! ### Numbers -/

/-- The first loop of `convert_int_to_string`: the number of divisions by ten until the number is no
longer positive. -/
def countCipher (tmpValue : ℤ) : ℕ :=
  if 0 < tmpValue then countCipher (tmpValue / 10) + 1 else 0
termination_by tmpValue.toNat
decreasing_by omega

/-- The second loop of `convert_int_to_string`, which writes the digits from the last one on. Its
test that the index is not negative is made on a `size_t` and always succeeds; the number is used up
after `count` digits, before the index could wrap. -/
def writeCiphers (count : ℕ) (value : ℤ) (i : ℕ) (strNumber : List Byte) : List Byte :=
  if 0 < value then
    writeCiphers count (value / 10) (i + 1)
      (strNumber.set (count - i) (48 + (value % 10).toNat).toUInt8)
  else strNumber
termination_by value.toNat
decreasing_by omega

/-- `convert_int_to_string`: the allocation, with the NUL behind the digits. -/
def convertIntToString (size : ℤ) : List Byte :=
  let count := countCipher size
  (writeCiphers count size 1 (zeros (count + 1))).set count 0

/-- How the machine computes with fractions: the value that a `float` variable keeps, and the value
of a `double` operation. -/
structure Arithmetic where
  single : ℚ → ℚ
  double : ℚ → ℚ

/-- The arithmetic of the binary formats with 24 and 53 digits. -/
def ieee : Arithmetic where
  single := roundToPrecision 24
  double := roundToPrecision 53

@[simp] theorem ieee_single : ieee.single = roundToPrecision 24 :=
  rfl

@[simp] theorem ieee_double : ieee.double = roundToPrecision 53 :=
  rfl

/-- The digits that `convert_float_to_string` converts for a number between zero and one. The
product is taken in `double`, and `mantissa` is a `float`. -/
def decimalPart (arith : Arithmetic) (n : ℚ) : ℤ :=
  let mantissa := arith.single (n - arith.single (truncate n))
  let scaled := arith.double (mantissa * 10 ^ 8)
  truncate (arith.single (truncate scaled))

/-- `convert_float_to_string`. The bytes behind the allocation of the digits are `beyond`: eight
bytes are copied also when the allocation is shorter. -/
def convertFloatToString (arith : Arithmetic) (beyond : List Byte) (n : ℚ) : List Byte :=
  if truncate n = 0 then
    let strDec := convertIntToString (decimalPart arith n)
    (overwrite (overwrite (zeros 11) 0 (bytes "0.")) 2 ((strDec ++ beyond).take 8)).set 10 0
  else (overwrite (zeros 11) 0 (bytes "1.00000000")).set 10 0

/-! ### Names and paths -/

/-- `build_image_name_cache`. -/
def buildImageNameCache (arith : Arithmetic) (beyond name : List Byte) (quality : ℚ)
    (width height colors : ℤ) : List Byte :=
  name ++ untilNul (convertFloatToString arith beyond quality) ++
    untilNul (convertIntToString width) ++ untilNul (convertIntToString height) ++
      untilNul (convertIntToString colors)

/-- The `cache_path` that `handle_client` prints. -/
def cachePath (cacheName ext : List Byte) : List Byte :=
  imageCache ++ cacheName ++ ext

/-- The `image_path` that `handle_client` prints. -/
def imagePath (imageName ext : List Byte) : List Byte :=
  imageDir ++ imageName ++ ext

/-! ### What the builders write -/

/-- The first loop counts the digits. -/
theorem countCipher_natCast (value : ℕ) : countCipher value = digitCount value := by
  induction value using Nat.strongRecOn with
  | ind value ih =>
    rw [countCipher]
    split_ifs with hpos
    · have hpos' : 0 < value := by omega
      rw [show (value : ℤ) / 10 = (value / 10 : ℕ) by omega, ih _ (by omega),
        digitCount_of_pos hpos']
    · have hzero : value = 0 := by omega
      rw [hzero, digitCount, Nat.digits_zero, List.length_nil]

/-- The byte of the last digit. -/
theorem toUInt8_emod_ten (value : ℕ) :
    (48 + ((value : ℤ) % 10).toNat).toUInt8 = digitByte (value % 10) := by
  rw [digitByte, show ((value : ℤ) % 10).toNat = value % 10 by omega]

/-- The second loop fills the space in front of `rest` with the numeral. -/
theorem writeCiphers_natCast (value : ℕ) {count i : ℕ} {front : List Byte} (rest : List Byte)
    (hfront : front.length = digitCount value) (hcount : count + 1 = i + digitCount value) :
    writeCiphers count value i (front ++ rest) = numeral value ++ rest := by
  induction value using Nat.strongRecOn generalizing i front rest with
  | ind value ih =>
    rw [writeCiphers]
    split_ifs with hpos
    · have hpos' : 0 < value := by omega
      rw [digitCount_of_pos hpos'] at hfront hcount
      obtain ⟨front', last, rfl⟩ : ∃ front' last, front = front' ++ [last] :=
        ⟨_, _, (List.dropLast_concat_getLast (List.ne_nil_of_length_pos (by omega))).symm⟩
      rw [List.length_append, List.length_singleton, Nat.add_right_cancel_iff] at hfront
      have hset : (front' ++ [last] ++ rest).set (count - i) (digitByte (value % 10)) =
          front' ++ digitByte (value % 10) :: rest := by
        rw [List.append_assoc, List.set_append_right _ _ (by omega),
          show count - i - front'.length = 0 by omega, List.singleton_append, List.set_cons_zero]
      rw [toUInt8_emod_ten, hset, show (value : ℤ) / 10 = (value / 10 : ℕ) by omega,
        ih _ (by omega) _ hfront (by omega), numeral_of_pos hpos', List.append_assoc,
        List.singleton_append]
    · have hzero : value = 0 := by omega
      subst hzero
      rw [digitCount, Nat.digits_zero, List.length_nil, List.length_eq_zero_iff] at hfront
      rw [hfront, numeral_zero]

/-- The loops of `convert_int_to_string` see a negative number as zero. -/
theorem convertIntToString_toNat (size : ℤ) :
    convertIntToString size = convertIntToString (size.toNat : ℤ) := by
  rcases Int.le_total 0 size with hnonneg | hneg
  · rw [Int.toNat_of_nonneg hnonneg]
  · have hzero : size.toNat = 0 := by omega
    have hnot : ¬ 0 < size := by omega
    rw [hzero, convertIntToString, convertIntToString, countCipher, if_neg hnot, writeCiphers,
      if_neg hnot]
    simp [countCipher, writeCiphers]

/-- `convert_int_to_string` writes the numeral of its argument, and a NUL. -/
theorem convertIntToString_eq (size : ℤ) :
    convertIntToString size = numeral size.toNat ++ [0] := by
  rw [convertIntToString_toNat, convertIntToString, countCipher_natCast]
  have hzeros : zeros (digitCount size.toNat + 1) = zeros (digitCount size.toNat) ++ [0] :=
    List.replicate_succ'
  rw [hzeros, writeCiphers_natCast _ [0] (length_zeros _) (by omega),
    List.set_append_right _ _ (length_numeral _).le, length_numeral, Nat.sub_self,
    List.set_cons_zero]

/-- A numeral holds no NUL. -/
theorem zero_notMem_numeral (value : ℕ) : (0 : Byte) ∉ numeral value :=
  notMem_numeral (Or.inl (by decide)) value

/-- The string that `convert_int_to_string` returns. -/
@[simp] theorem untilNul_convertIntToString (size : ℤ) :
    untilNul (convertIntToString size) = numeral size.toNat := by
  rw [convertIntToString_eq, untilNul_append_zero (zero_notMem_numeral _)]

/-- The string of a quality as the key shows it. -/
def qualityText (arith : Arithmetic) (n : ℚ) : List Byte :=
  if truncate n = 0 then bytes "0." ++ (numeral (decimalPart arith n).toNat).take 8
  else bytes "1.00000000"

/-- A copy of at most eight bytes behind `"0."`, in an allocation of eleven zero bytes that keeps
its last one. -/
theorem overwrite_decimals {data : List Byte} (hlength : data.length ≤ 8) :
    (overwrite (overwrite (zeros 11) 0 (bytes "0.")) 2 data).set 10 0 =
      bytes "0." ++ data ++ 0 :: zeros (8 - data.length) := by
  have hzeros : zeros 9 = zeros data.length ++ (zeros (8 - data.length) ++ [0]) := by
    rw [zeros, zeros, zeros, ← List.replicate_succ', List.replicate_append_replicate]
    congr 1
    omega
  have htext : overwrite (zeros 11) 0 (bytes "0.") = bytes "0." ++ zeros 9 := by decide
  have hcopy : overwrite (bytes "0." ++ zeros 9) 2 data =
      bytes "0." ++ data ++ zeros (8 - data.length) ++ [0] := by
    have hwrite := overwrite_append (bytes "0.") data (zeros 9)
    rw [hzeros, List.drop_left' (length_zeros _), ← hzeros, ← List.append_assoc] at hwrite
    exact hwrite
  have hfront : (bytes "0." ++ data ++ zeros (8 - data.length)).length = 10 := by
    have htwo : (bytes "0.").length = 2 := by decide
    rw [List.length_append, List.length_append, length_zeros, htwo]
    omega
  rw [htext, hcopy, List.set_append_right _ _ hfront.le, hfront, Nat.sub_self, List.set_cons_zero,
    List.append_assoc]
  congr 1
  rw [zeros, ← List.replicate_succ', List.replicate_succ]

/-- `convert_float_to_string` returns the first eight digits of the decimal part, whatever lies
behind them on the heap. -/
theorem untilNul_convertFloatToString (arith : Arithmetic) (beyond : List Byte) (n : ℚ) :
    untilNul (convertFloatToString arith beyond n) = qualityText arith n := by
  rw [convertFloatToString, qualityText]
  split_ifs with hinteger
  · have hfree : (0 : Byte) ∉ bytes "0." ++ numeral (decimalPart arith n).toNat := by
      rw [List.mem_append, not_or]
      exact ⟨by decide, zero_notMem_numeral _⟩
    have htake : ∀ text, (bytes "0." ++ text).take 10 = bytes "0." ++ text.take 8 := by
      intro text
      rw [show bytes "0." = [48, 46] by decide]
      rfl
    rw [overwrite_decimals (List.length_take_le 8 _), convertIntToString_eq, ← htake,
      List.append_assoc _ [0], List.singleton_append, ← List.append_assoc,
      untilNul_take_append_zero hfree, htake]
  · decide

/-- The key under which an image is cached. -/
theorem buildImageNameCache_eq (arith : Arithmetic) (beyond name : List Byte) (quality : ℚ)
    (width height colors : ℤ) :
    buildImageNameCache arith beyond name quality width height colors =
      name ++ qualityText arith quality ++ numeral width.toNat ++ numeral height.toNat ++
        numeral colors.toNat := by
  rw [buildImageNameCache, untilNul_convertFloatToString, untilNul_convertIntToString,
    untilNul_convertIntToString, untilNul_convertIntToString]

end ImageApp.Server
