import ImageApp.Requests.AcceptValues

/-!
# The formats that are asked for

The format of an entry is looked for in two rows of tests, one for the entries without a quality and
one for those with it. The second row knows neither WebP nor JPEG XR, takes PNG over JPEG where both
are named, and has no test for all images. So a quality changes the format of some ranges, and
`sameFormats_iff` says of which: in lists of all others the format depends neither on qualities nor
on spaces.
-/

set_option autoImplicit false
set_option relaxedAutoImplicit false

namespace ImageApp.Requests

open Foundations.CStrings Foundations.DecimalPrefixes Server Server.AcceptParse

/-- A list of media ranges is written with these entries: each with or without a quality, and each
but the first with or without a space behind its comma. -/
def Spells (ranges : List MediaRange) (entries : List ValueEntry) : Prop :=
  entries.map ValueEntry.range = ranges ∧ ∀ entry ∈ entries.head?, entry.spaced = false

/-- Two ends of the function have the same formats. -/
def SameFormatsAtEnd (first second : AcceptOutcome × List (ℚ × ExtImage)) : Prop :=
  first.1 = second.1 ∧ (first.1 = .parsed → first.2.map Prod.snd = second.2.map Prod.snd)

/-- The formats that the function assigns do not depend on how a list of media ranges is written. -/
def SameFormats (arith : Arithmetic) (strtof : List Byte → ℚ × Bool) (ranges : List MediaRange) :
    Prop :=
  ∀ first second, Spells ranges first → Spells ranges second → ∀ firstEnd secondEnd,
    EndsWith arith strtof (acceptValue first) firstEnd →
    EndsWith arith strtof (acceptValue second) secondEnd → SameFormatsAtEnd firstEnd secondEnd

/-- A text contains the name of a format. -/
def Names (text : List Byte) (format : String) : Prop :=
  (strstr text (bytes format)).isSome

instance decidableNames (text : List Byte) (format : String) : Decidable (Names text format) :=
  inferInstanceAs (Decidable (_ = _))

/-- Both rows of tests find the same format: PNG is not named together with JPEG, and a text that
names neither does not name one of the formats that only the first row knows. -/
structure NamesOneFormat (text : List Byte) : Prop where
  jpg : Names text "jpg" ∨ Names text "jpeg" → ¬ Names text "png"
  none : ¬ Names text "jpg" → ¬ Names text "jpeg" → ¬ Names text "png" →
    ¬ Names text "webp" ∧ ¬ Names text "jxr"

/-- A quality does not change the format of the range. -/
def MediaRange.FormatFixed (range : MediaRange) : Prop :=
  Names range.text "image/" → range.text ≠ bytes "image/*" ∧ NamesOneFormat range.text

/-! ### The two rows of tests -/

/-- The two rows of tests agree on a text if and only if it names formats in this way. -/
theorem plainExtension_eq_lastExtension_iff (text : List Byte) :
    plainExtension text .jpg = lastExtension text .jpg ↔ NamesOneFormat text := by
  have hfields : NamesOneFormat text ↔
      (Names text "jpg" ∨ Names text "jpeg" → ¬ Names text "png") ∧
        (¬ Names text "jpg" → ¬ Names text "jpeg" → ¬ Names text "png" →
          ¬ Names text "webp" ∧ ¬ Names text "jxr") :=
    ⟨fun hnames ↦ ⟨hnames.jpg, hnames.none⟩, fun hnames ↦ ⟨hnames.1, hnames.2⟩⟩
  rw [hfields]
  unfold plainExtension lastExtension Names
  by_cases hpng : (strstr text (bytes "png")).isSome
  · simp only [hpng, if_true]
    split_ifs with hjpg hjpeg
    · simp [hjpg]
    · simp [hjpeg]
    · simp [hjpg, hjpeg]
  · simp only [hpng]
    split_ifs <;> simp_all

/-- Only names with a space in them could be found in front of a semicolon but not in the range. -/
theorem extensions_front (entry : ValueEntry) (extension : ExtImage) :
    plainExtension entry.front extension = plainExtension entry.range.text extension ∧
      lastExtension entry.front extension = lastExtension entry.range.text extension := by
  have hname : ∀ format ∈ ["jpg", "jpeg", "png", "webp", "jxr"],
      (strstr entry.front (bytes format)).isSome =
        (strstr entry.range.text (bytes format)).isSome := by
    intro format hformat
    have hbytes : bytes format ≠ [] ∧ space ∉ bytes format := by
      revert format
      decide
    exact Bool.eq_iff_iff.mpr (entry.isSome_strstr_front hbytes.1 hbytes.2)
  simp only [List.forall_mem_cons, List.not_mem_nil, false_imp_iff, implies_true, and_true] at hname
  obtain ⟨hjpg, hjpeg, hpng, hwebp, hjxr⟩ := hname
  simp only [plainExtension, lastExtension, hjpg, hjpeg, hpng, hwebp, hjxr, and_self]

/-- A range of images is not the one of all types. -/
theorem not_names_all {range : MediaRange} (himage : Names range.text "image/") :
    ¬ Names range.text "*/*" := by
  intro hall
  have himage' := (range.isSome_strstr_iff (bytes "image") []).mp himage
  have hall' := (range.isSome_strstr_iff (bytes "*") (bytes "*")).mp hall
  have hsuffix := List.suffix_of_suffix_length_le hall'.1 himage'.1 (by decide)
  exact absurd hsuffix (by decide)

/-- The comparison of a whole entry succeeds only without a space in front of it. -/
theorem text_of_front {entry : ValueEntry} (hfront : entry.front = bytes "image/*") :
    entry.spaced = false ∧ entry.range.text = bytes "image/*" := by
  rw [ValueEntry.front] at hfront
  cases hspaced : entry.spaced with
  | false =>
    rw [hspaced] at hfront
    exact ⟨rfl, hfront⟩
  | true =>
    rw [hspaced] at hfront
    have hhead := congrArg List.head? hfront
    exact absurd (Option.some_inj.mp hhead) (by decide)

section Formats

variable {arith : Arithmetic} {strtof : List Byte → ℚ × Bool}

/-- The format of a range with a quality. -/
def MediaRange.format (range : MediaRange) : ExtImage :=
  if Names range.text "*/*" then .allExt else lastExtension range.text .jpg

theorem format_of_some {entry : ValueEntry} {parameter : QualityParameter}
    (hsome : entry.parameter = some parameter) :
    (entry.result arith strtof).2 = entry.range.format := by
  have hall := @ValueEntry.isSome_strstr_front entry (bytes "*/*") (by decide) (by decide)
  have hlast := (extensions_front entry .jpg).2
  rw [ValueEntry.result, hsome, MediaRange.format]
  by_cases hnames : Names entry.range.text "*/*"
  · simp only [if_pos hnames, if_pos (hall.mpr hnames)]
  · simp only [if_neg hnames, if_neg (hall.not.mpr hnames), hlast]

/-- The format of a range without a quality. -/
theorem format_of_none {entry : ValueEntry} (hnone : entry.parameter = none) :
    (entry.result arith strtof).2 =
      if Names entry.range.text "image/" then
        if entry.front = bytes "image/*" then .allExt else plainExtension entry.range.text .jpg
      else entry.range.format := by
  have himage := @ValueEntry.isSome_strstr_front entry (bytes "image/") (by decide) (by decide)
  have hall := @ValueEntry.isSome_strstr_front entry (bytes "*/*") (by decide) (by decide)
  obtain ⟨hplain, hlast⟩ := extensions_front entry .jpg
  rw [ValueEntry.result, hnone, MediaRange.format]
  by_cases hnames : Names entry.range.text "image/"
  · simp only [if_pos hnames, if_pos (himage.mpr hnames), hplain]
  · simp only [if_neg hnames, if_neg (himage.not.mpr hnames), hlast]
    by_cases htypes : Names entry.range.text "*/*"
    · rw [if_pos htypes, if_pos (hall.mpr htypes)]
    · rw [if_neg htypes, if_neg (hall.not.mpr htypes)]

/-- The format of a range with a fixed format is the one that it has with a quality. -/
theorem format_of_fixed {entry : ValueEntry} (hfixed : entry.range.FormatFixed) :
    (entry.result arith strtof).2 = entry.range.format := by
  cases hparameter : entry.parameter with
  | some parameter => exact format_of_some hparameter
  | none =>
    rw [format_of_none hparameter]
    by_cases hnames : Names entry.range.text "image/"
    · obtain ⟨hne, hone⟩ := hfixed hnames
      have hfront : entry.front ≠ bytes "image/*" := fun hfront ↦ hne (text_of_front hfront).2
      rw [if_pos hnames, if_neg hfront, MediaRange.format, if_neg (not_names_all hnames)]
      exact (plainExtension_eq_lastExtension_iff _).mpr hone
    · rw [if_neg hnames]

/-- The two plainest ways to write a range. -/
theorem formatFixed_of_result {range : MediaRange} {parameter : QualityParameter}
    (hsame : (ValueEntry.result arith strtof ⟨false, range, none⟩).2 =
      (ValueEntry.result arith strtof ⟨false, range, some parameter⟩).2) : range.FormatFixed := by
  intro hnames
  rw [format_of_none rfl, format_of_some rfl, if_pos hnames, MediaRange.format,
    if_neg (not_names_all hnames)] at hsame
  have hne : range.text ≠ bytes "image/*" := by
    intro htext
    have hfront : ValueEntry.front ⟨false, range, none⟩ = bytes "image/*" := htext
    rw [if_pos hfront, htext] at hsame
    exact absurd hsame (by decide)
  have hfront : ValueEntry.front ⟨false, range, none⟩ ≠ bytes "image/*" := hne
  rw [if_neg hfront] at hsame
  exact ⟨hne, (plainExtension_eq_lastExtension_iff _).mp hsame⟩

/-! ### The whole value -/

/-- The ranges that are not left out. -/
def keptRanges (ranges : List MediaRange) : List MediaRange :=
  ranges.filter fun range ↦ ¬ Discarded range.text

theorem map_range_keptEntries {ranges : List MediaRange} {entries : List ValueEntry}
    (hspells : Spells ranges entries) :
    (keptEntries entries).map ValueEntry.range = keptRanges ranges := by
  rw [← hspells.1, keptRanges, List.filter_map]
  rfl

/-- How the function ends on a list of at most three ranges. -/
theorem end_of_spells {ranges : List MediaRange} {entries : List ValueEntry}
    {result : AcceptOutcome × List (ℚ × ExtImage)} (hroom : ranges.length ≤ 3)
    (hspells : Spells ranges entries)
    (hends : EndsWith arith strtof (acceptValue entries) result) :
    result.1 = (if keptRanges ranges = [] then .aborted else .parsed) ∧
      (result.1 = .parsed → result.2.map Prod.snd =
        (keptEntries entries).map fun entry ↦ (entry.result arith strtof).2) := by
  have hlength : entries.length ≤ 3 := by
    rw [← hspells.1, List.length_map] at hroom
    exact hroom
  have hend := @endsWith_acceptEnd arith strtof (acceptValue entries)
  rw [acceptEnd_acceptValue hlength] at hend
  have hnone : keptEntries entries = [] ↔ keptRanges ranges = [] := by
    rw [← map_range_keptEntries hspells, List.map_eq_nil_iff]
  obtain ⟨houtcome, hvalues⟩ := eq_of_endsWith hends hend
  by_cases hkept : keptEntries entries = []
  · rw [if_pos hkept] at houtcome
    rw [if_pos (hnone.mp hkept)]
    exact ⟨houtcome, fun hparsed ↦ nomatch houtcome.symm.trans hparsed⟩
  · rw [if_neg hkept] at houtcome hvalues
    rw [if_neg (hnone.not.mp hkept)]
    refine ⟨houtcome, fun hparsed ↦ ?_⟩
    rw [hvalues hparsed, List.map_map]
    rfl

/-- All entries of a list written in one of the two plainest ways. -/
theorem spells_map (parameter : Option QualityParameter) (ranges : List MediaRange) :
    Spells ranges (ranges.map fun range ↦ ⟨false, range, parameter⟩) := by
  refine ⟨?_, fun entry hentry ↦ ?_⟩
  · rw [List.map_map]
    exact List.map_id ranges
  · obtain ⟨range, -, rfl⟩ := List.mem_map.mp (List.mem_of_mem_head? hentry)
    rfl

/-- The formats of a list of at most three ranges do not depend on how it is written if and only if
each range that is not left out has a format that a quality does not change. -/
theorem sameFormats_iff (arith : Arithmetic) (strtof : List Byte → ℚ × Bool)
    {ranges : List MediaRange} (hroom : ranges.length ≤ 3) :
    SameFormats arith strtof ranges ↔
      ∀ range ∈ ranges, ¬ Discarded range.text → range.FormatFixed := by
  constructor
  · intro hsame range hrange hkept
    -- all ranges without a quality, and all of them with one
    have hplain := spells_map none ranges
    have hquality := spells_map (some fullQuality) ranges
    have hends := @endsWith_acceptEnd arith strtof
    obtain ⟨hparsed, hformats⟩ := end_of_spells hroom hplain (hends _)
    obtain ⟨-, hformats'⟩ := end_of_spells hroom hquality (hends _)
    have hmem : range ∈ keptRanges ranges :=
      List.mem_filter.mpr ⟨hrange, decide_eq_true hkept⟩
    rw [if_neg (List.ne_nil_of_mem hmem)] at hparsed
    obtain ⟨houtcome, hequal⟩ := hsame _ _ hplain hquality _ _ (hends _) (hends _)
    have hmaps := hequal hparsed
    rw [hformats hparsed, hformats' (houtcome ▸ hparsed)] at hmaps
    simp only [keptEntries, List.filter_map, List.map_map] at hmaps
    exact formatFixed_of_result (List.map_inj_left.mp hmaps range hmem)
  · intro hfixed first second hfirst hsecond firstEnd secondEnd hfirstEnd hsecondEnd
    have hformats : ∀ entries, Spells ranges entries →
        (keptEntries entries).map (fun entry ↦ (entry.result arith strtof).2) =
          (keptRanges ranges).map MediaRange.format := by
      intro entries hspells
      rw [← map_range_keptEntries hspells, List.map_map]
      refine List.map_inj_left.mpr fun entry hentry ↦ ?_
      obtain ⟨hmem, hkept⟩ := List.mem_filter.mp hentry
      refine format_of_fixed (hfixed entry.range ?_ (of_decide_eq_true hkept))
      rw [← hspells.1]
      exact List.mem_map_of_mem hmem
    obtain ⟨hparsed, hvalues⟩ := end_of_spells hroom hfirst hfirstEnd
    obtain ⟨hparsed', hvalues'⟩ := end_of_spells hroom hsecond hsecondEnd
    refine ⟨hparsed.trans hparsed'.symm, fun hdone ↦ ?_⟩
    have hdone' : secondEnd.1 = .parsed := hparsed'.trans (hparsed.symm.trans hdone)
    rw [hvalues hdone, hvalues' hdone', hformats first hfirst, hformats second hsecond]

end Formats

/-! ### Two ranges -/

/-- The range of WebP images. -/
def webpRange : MediaRange where
  type := bytes "image"
  subtype := bytes "webp"
  type_token := pngRange.type_token
  subtype_token := isToken_of_all (by decide) (by decide)

/-- The format of PNG images does not depend on how they are asked for. -/
theorem sameFormats_png : SameFormats ieee decimalPrefix [pngRange] := by
  refine (sameFormats_iff ieee decimalPrefix (by decide)).mpr
    (List.forall_mem_singleton.mpr fun _ _ ↦ ⟨by decide, fun hjpg ↦ ?_, fun _ _ hpng ↦ ?_⟩)
  · exact absurd hjpg (by decide)
  · exact absurd (by decide) hpng

/-- WebP images are sent as JPEG when they are asked for with a quality, and so are those of JPEG XR
and those of any format. -/
theorem not_sameFormats :
    (¬ ∀ (arith : Arithmetic) (strtof : List Byte → ℚ × Bool) (ranges : List MediaRange),
      ranges.length ≤ 3 → SameFormats arith strtof ranges) ∧
      acceptEnd ieee decimalPrefix (bytes "image/webp,image/jxr,image/*") =
        (.parsed, [(1, .webp), (1, .jxr), (1, .allExt)]) ∧
      acceptEnd ieee decimalPrefix (bytes "image/webp;q=0.8,image/jxr;q=0.8,image/*;q=0.8") =
        (.parsed, [(4 / 5, .jpg), (4 / 5, .jpg), (4 / 5, .jpg)]) := by
  refine ⟨fun hsame ↦ ?_, by decide +kernel, by decide +kernel⟩
  have hplain := spells_map none [webpRange]
  have hquality := spells_map (some fullQuality) [webpRange]
  have hends := @endsWith_acceptEnd ieee decimalPrefix
  have hformats := (hsame ieee decimalPrefix [webpRange] (by decide) _ _ hplain hquality _ _
    (hends _) (hends _)).2 (by decide +kernel)
  exact absurd hformats (by decide +kernel)

end ImageApp.Requests
