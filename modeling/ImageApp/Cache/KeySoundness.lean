import ImageApp.Foundations.PathDescent
import ImageApp.Server.HandleImage
import ImageApp.Server.RequestLine
import ImageApp.Server.Strings

/-!
# The key of the image cache

An adapted image is found again under its cache path, which is built from the name, the quality, the
width, the height, the colors and the extension of the request. Nothing separates the numbers in it
and the number zero is not written at all, so the path tells the quality and the three numbers only
as one row of digits (`cachePath_eq_iff`), and it does not tell the output format.

`sameAdaptation_of_cachePath_iff` is the exact condition under which equal paths do mean the same
adaptation: two requests that are written alike must also cut the row of digits at the same places
and ask for the same format.
-/

set_option autoImplicit false
set_option relaxedAutoImplicit false

namespace ImageApp.Cache

open Foundations.CStrings Foundations.PathDescent Foundations.BinaryRounding
  Foundations.DecimalRows Server

/-! ### Requests for an adaptation -/

/-- What a request for an image gives to the cache: the name and the extension come from an accepted
line, the quality is a `float` from above zero to one, and no dimension is negative. -/
structure Adaptation where
  imageName : List Byte
  ext : List Byte
  quality : ℚ
  width : ℤ
  height : ℤ
  colors : ℤ
  extension : ExtImage
  accepted : ∃ line, parseName line = some (.imageRequested imageName ext)
  quality_pos : 0 < quality
  quality_le_one : quality ≤ 1
  quality_float : Representable 24 quality
  width_nonneg : 0 ≤ width
  height_nonneg : 0 ≤ height
  colors_nonneg : 0 ≤ colors

namespace Adaptation

/-- The cache path of the request. -/
def cachePath (beyond : List Byte) (request : Adaptation) : List Byte :=
  Server.cachePath
    (buildImageNameCache ieee beyond request.imageName request.quality request.width request.height
      request.colors) request.ext

/-- The image that the adaptation starts from. -/
def sourcePath (request : Adaptation) : List Byte :=
  imagePath request.imageName request.ext

/-- The digits of the quality and of the three numbers, written in a row. -/
def digitRow (request : Adaptation) : ℕ :=
  row [(decimalPart ieee request.quality).toNat, request.width.toNat, request.height.toNat,
    request.colors.toNat]

/-- The two requests ask for the same adaptation of the same image. -/
structure Same (first second : Adaptation) : Prop where
  sourcePath_eq : first.sourcePath = second.sourcePath
  width_eq : first.width = second.width
  height_eq : first.height = second.height
  colors_eq : first.colors = second.colors
  format_eq : outputFormat first.extension = outputFormat second.extension

/-- The two requests are written alike: they agree on the name, on the extension, on whether the
quality is full, and on the row of digits. -/
structure WrittenAlike (first second : Adaptation) : Prop where
  imageName_eq : first.imageName = second.imageName
  ext_eq : first.ext = second.ext
  full_iff : first.quality = 1 ↔ second.quality = 1
  digitRow_eq : first.digitRow = second.digitRow

/-- The two requests cut their digits at the same places and ask for the same format. -/
structure CutAlike (first second : Adaptation) : Prop where
  width_eq : digitCount first.width.toNat = digitCount second.width.toNat
  height_eq : digitCount first.height.toNat = digitCount second.height.toNat
  colors_eq : digitCount first.colors.toNat = digitCount second.colors.toNat
  format_eq : outputFormat first.extension = outputFormat second.extension

end Adaptation

/-! ### The text of a quality -/

/-- A quality below one has no more digits than `convert_float_to_string` copies. -/
theorem decimalPart_lt {quality : ℚ} (hpos : 0 < quality) (hlt : quality < 1)
    (hfloat : Representable 24 quality) : decimalPart ieee quality < 10 ^ 8 := by
  have hinteger : truncate quality = 0 := truncate_eq_zero hpos.le hlt
  have hbound : quality ≤ 1 - (2 ^ 24)⁻¹ := le_one_sub_of_representable hpos hlt hfloat
  have hpart : decimalPart ieee quality =
      truncate (roundToPrecision 24 (truncate (roundToPrecision 53 (quality * 10 ^ 8)))) := by
    rw [decimalPart, ieee_single, ieee_double, hinteger, Int.cast_zero, roundToPrecision_zero,
      sub_zero, hfloat]
  set scaled := roundToPrecision 53 (quality * 10 ^ 8) with hscaled
  -- The product is rounded to a `double`, and its integer part to a `float`.
  have hproduct : 0 ≤ quality * 10 ^ 8 := by positivity
  have hscaledNonneg : 0 ≤ scaled := roundToPrecision_nonneg 53 hproduct
  have hscaledLe : scaled ≤ quality * 10 ^ 8 + 2 ^ ((27 : ℤ) - (53 : ℕ)) / 2 :=
    roundToPrecision_le hproduct (by norm_num; linarith)
  have hintegerLe : (truncate scaled : ℚ) ≤ scaled := truncate_le hscaledNonneg
  have hintegerNonneg : (0 : ℚ) ≤ truncate scaled := by
    exact_mod_cast truncate_nonneg hscaledNonneg
  have hfloatLe : roundToPrecision 24 (truncate scaled) ≤
      truncate scaled + 2 ^ ((27 : ℤ) - (24 : ℕ)) / 2 :=
    roundToPrecision_le hintegerNonneg (by norm_num at hscaledLe ⊢; linarith)
  have hresult : (truncate (roundToPrecision 24 (truncate scaled)) : ℚ) ≤
      roundToPrecision 24 (truncate scaled) :=
    truncate_le (roundToPrecision_nonneg 24 hintegerNonneg)
  have hcast : (decimalPart ieee quality : ℚ) < 10 ^ 8 := by
    rw [hpart]
    norm_num at hbound hscaledLe hfloatLe ⊢
    linarith
  exact_mod_cast hcast

/-- The full quality has no digits behind its zeros. -/
theorem decimalPart_one : decimalPart ieee 1 = 0 := by
  have hinteger : truncate (1 : ℚ) = 1 := by exact_mod_cast truncate_intCast 1
  have hround : roundToPrecision 24 1 = 1 := representable_one (by decide)
  rw [decimalPart, ieee_single, ieee_double, hinteger, Int.cast_one, hround, sub_self]
  simp [truncate]

/-- The text of a quality from above zero to one: a digit that tells whether the quality is full, a
dot, and the digits. -/
theorem qualityText_eq {quality : ℚ} (hpos : 0 < quality) (hle : quality ≤ 1)
    (hfloat : Representable 24 quality) :
    qualityText ieee quality =
      (if quality = 1 then bytes "1.00000000" else bytes "0.") ++
        numeral (decimalPart ieee quality).toNat := by
  by_cases hfull : quality = 1
  · have hone : truncate (1 : ℚ) = 1 := by exact_mod_cast truncate_intCast 1
    rw [hfull, qualityText, hone, decimalPart_one, if_pos rfl, if_neg one_ne_zero, Int.toNat_zero,
      numeral_zero, List.append_nil]
  · have hlt : quality < 1 := lt_of_le_of_ne hle hfull
    have hdigits : (numeral (decimalPart ieee quality).toNat).length ≤ 8 := by
      have hbound := decimalPart_lt hpos hlt hfloat
      rw [length_numeral, digitCount, Nat.digits_length_le_iff (by norm_num)]
      omega
    rw [qualityText, if_pos (truncate_eq_zero hpos.le hlt), if_neg hfull,
      List.take_of_length_le hdigits]

/-! ### What a cache path tells -/

namespace Adaptation

/-- The digit in front of the dot of the quality, and the zeros behind it. -/
theorem cachePath_eq (beyond : List Byte) (request : Adaptation) :
    request.cachePath beyond = imageCache ++
      ((request.imageName ++ [if request.quality = 1 then 49 else 48]) ++
        dot :: ((if request.quality = 1 then bytes "00000000" else []) ++
          (numeral request.digitRow ++ request.ext))) := by
  have hrow : numeral request.digitRow = numeral (decimalPart ieee request.quality).toNat ++
      (numeral request.width.toNat ++ (numeral request.height.toNat ++
        numeral request.colors.toNat)) := by
    rw [digitRow, ← flatMap_numeral]
    simp
  rw [cachePath, Server.cachePath, buildImageNameCache_eq,
    qualityText_eq request.quality_pos request.quality_le_one request.quality_float, hrow]
  split_ifs
  · rw [show bytes "1.00000000" = 49 :: dot :: bytes "00000000" by decide]
    simp only [List.append_assoc, List.cons_append, List.nil_append]
  · rw [show bytes "0." = [48, dot] by decide]
    simp only [List.append_assoc, List.cons_append, List.nil_append]

/-- A numeral and an extension behind it are told apart by the dot. -/
theorem numeral_append_ext_inj {first second : Adaptation} {value value' : ℕ}
    (heq : numeral value ++ first.ext = numeral value' ++ second.ext) :
    value = value' ∧ first.ext = second.ext := by
  have hdigits : ∀ value, dot ∉ numeral value := notMem_numeral (Or.inl (by decide))
  obtain ⟨line, hline⟩ := first.accepted
  obtain ⟨line', hline'⟩ := second.accepted
  rcases (acceptedName_of_parseName hline).ext_cases with ⟨-, hext⟩ | ⟨tail, hext, -⟩ <;>
    rcases (acceptedName_of_parseName hline').ext_cases with ⟨-, hext'⟩ | ⟨tail', hext', -⟩ <;>
    rw [hext, hext'] at heq ⊢
  · rw [List.append_nil, List.append_nil] at heq
    exact ⟨numeral_injective heq, rfl⟩
  · rw [List.append_nil] at heq
    exact absurd (heq ▸ List.mem_append_right _ List.mem_cons_self) (hdigits value)
  · rw [List.append_nil] at heq
    exact absurd (heq ▸ List.mem_append_right _ List.mem_cons_self) (hdigits value')
  · obtain ⟨hnumeral, htail⟩ := append_cons_inj (hdigits value) (hdigits value') heq
    exact ⟨numeral_injective hnumeral, by rw [htail]⟩

/-- Two requests have the same cache path exactly when they are written alike. -/
theorem cachePath_eq_iff (first second : Adaptation) (beyond beyond' : List Byte) :
    first.cachePath beyond = second.cachePath beyond' ↔ WrittenAlike first second := by
  rw [cachePath_eq, cachePath_eq, List.append_right_inj]
  constructor
  · intro heq
    have hdot : ∀ request : Adaptation,
        dot ∉ request.imageName ++ [if request.quality = 1 then 49 else 48] := by
      intro request
      obtain ⟨line, hline⟩ := request.accepted
      rw [List.mem_append, not_or]
      refine ⟨(acceptedName_of_parseName hline).dot_notMem, ?_⟩
      split_ifs <;> decide
    obtain ⟨hhead, htail⟩ := append_cons_inj (hdot first) (hdot second) heq
    obtain ⟨hname, hdigit⟩ := List.append_inj' hhead rfl
    have hfull : first.quality = 1 ↔ second.quality = 1 := by
      rw [List.cons.injEq] at hdigit
      by_cases hfirst : first.quality = 1 <;> by_cases hsecond : second.quality = 1 <;>
        simp [hfirst, hsecond] at hdigit ⊢
    simp only [hfull, List.append_right_inj] at htail
    obtain ⟨hrow, hext⟩ := numeral_append_ext_inj htail
    exact ⟨hname, hext, hfull, hrow⟩
  · intro h
    simp only [h.imageName_eq, h.ext_eq, h.full_iff, h.digitRow_eq]

/-- Requests that are written alike ask for the same adaptation exactly when they cut their digits
at the same places and ask for the same format. -/
theorem same_iff_cutAlike {first second : Adaptation} (halike : WrittenAlike first second) :
    Same first second ↔ CutAlike first second := by
  constructor
  · intro h
    exact ⟨by rw [h.width_eq], by rw [h.height_eq], by rw [h.colors_eq], h.format_eq⟩
  · intro h
    have hcounts : [first.width.toNat, first.height.toNat, first.colors.toNat].map digitCount =
        [second.width.toNat, second.height.toNat, second.colors.toNat].map digitCount := by
      simp [h.width_eq, h.height_eq, h.colors_eq]
    obtain ⟨-, hnumbers⟩ := eq_of_row_eq hcounts halike.digitRow_eq
    simp only [List.cons.injEq, and_true] at hnumbers
    obtain ⟨hwidth, hheight, hcolors⟩ := hnumbers
    have := first.width_nonneg
    have := first.height_nonneg
    have := first.colors_nonneg
    have := second.width_nonneg
    have := second.height_nonneg
    have := second.colors_nonneg
    refine ⟨?_, by omega, by omega, by omega, h.format_eq⟩
    rw [sourcePath, sourcePath, halike.imageName_eq, halike.ext_eq]

end Adaptation

/-- Equal cache paths mean the same adaptation exactly when two requests that are written alike also
cut their digits at the same places and ask for the same format. -/
theorem sameAdaptation_of_cachePath_iff (first second : Adaptation) (beyond beyond' : List Byte) :
    (first.cachePath beyond = second.cachePath beyond' → Adaptation.Same first second) ↔
      (Adaptation.WrittenAlike first second → Adaptation.CutAlike first second) := by
  rw [Adaptation.cachePath_eq_iff]
  exact forall_congr' fun halike ↦ Adaptation.same_iff_cutAlike halike

/-- The request for `photo.jpg` in full quality with the given dimensions. -/
def photoRequest (width height colors : ℕ) : Adaptation where
  imageName := bytes "photo"
  ext := bytes ".jpg"
  quality := 1
  width := width
  height := height
  colors := colors
  extension := .jpg
  accepted := ⟨bytes "GET /?photo.jpg HTTP/1.1", by decide⟩
  quality_pos := one_pos
  quality_le_one := le_refl 1
  quality_float := representable_one (by decide)
  width_nonneg := Int.natCast_nonneg width
  height_nonneg := Int.natCast_nonneg height
  colors_nonneg := Int.natCast_nonneg colors

/-- In full quality the digits in the key are those of the three numbers. -/
theorem photoRequest_digitRow (width height colors : ℕ) :
    (photoRequest width height colors).digitRow = row [0, width, height, colors] := by
  unfold Adaptation.digitRow
  simp only [photoRequest, decimalPart_one, Int.toNat_zero, Int.toNat_natCast]

/-- Width 1 and height 11 share the cache path of width 11 and height 1. -/
theorem not_sameAdaptation_of_cachePath :
    ¬ ∀ (first second : Adaptation) (beyond beyond' : List Byte),
      first.cachePath beyond = second.cachePath beyond' → Adaptation.Same first second := by
  intro hsound
  have hrow : (photoRequest 1 11 0).digitRow = (photoRequest 11 1 0).digitRow := by
    rw [photoRequest_digitRow, photoRequest_digitRow]
    decide
  have hsame := hsound (photoRequest 1 11 0) (photoRequest 11 1 0) [] []
    ((Adaptation.cachePath_eq_iff _ _ _ _).mpr ⟨rfl, rfl, Iff.rfl, hrow⟩)
  exact absurd hsame.width_eq (by decide)

end ImageApp.Cache
