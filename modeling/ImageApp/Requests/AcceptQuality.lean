import ImageApp.Requests.AcceptValues

/-!
# The qualities that are read

The quality is read three bytes behind the start of the parameter, which is right when a space
stands in front of the `q`. Without the space the first byte of the numeral is passed over, which
does no harm to a zero; and an entry for all types without a quality keeps the zero of its
allocation. `qualitiesAsDeclared_iff` is the resulting condition for lists of image types.
-/

set_option autoImplicit false
set_option relaxedAutoImplicit false

namespace ImageApp.Requests

open Foundations.CStrings Foundations.DecimalPrefixes Foundations.Tokens Server

/-- The quality of an entry, which is 1 if none is written. -/
def ValueEntry.declared (entry : ValueEntry) : ℚ :=
  match entry.parameter with
  | none => 1
  | some parameter => parameter.quality.value

/-- The range is one of images, or the one of all types. -/
def MediaRange.IsImage (range : MediaRange) : Prop :=
  range.type = bytes "image" ∨ range.type = bytes "*" ∧ range.subtype = bytes "*"

/-- At most three entries, each for images or for all types, with qualities above 0 and up to 1 that
have at most three decimals. -/
structure ImageEntries (entries : List ValueEntry) : Prop where
  room : entries.length ≤ 3
  ranges : ∀ entry ∈ entries, entry.range.IsImage
  positive : ∀ entry ∈ entries, ∀ parameter ∈ entry.parameter, 0 < parameter.quality.value
  le_one : ∀ entry ∈ entries, ∀ parameter ∈ entry.parameter, parameter.quality.value ≤ 1
  decimals : ∀ entry ∈ entries, ∀ parameter ∈ entry.parameter,
    parameter.quality.decimals.length ≤ 3

/-- The function comes back with the qualities that are written. `strtof` is exact. -/
def QualitiesAsDeclared (entries : List ValueEntry) : Prop :=
  ∃ values, EndsWith ieee decimalPrefix (acceptValue entries) (.parsed, values) ∧
    values.map Prod.fst = entries.map ValueEntry.declared

/-- The quality of an entry that is not left out is read as it is written: if there is none, the
range is not that of all types, and else a space stands in front of the `q` or the numeral starts
with a zero. -/
def ValueEntry.ReadsQuality (entry : ValueEntry) : Prop :=
  match entry.parameter with
  | none => entry.range.text ≠ bytes "*/*"
  | some parameter => parameter.spaced ∨ parameter.quality.whole.head? = some 48

/-! ### Ranges -/

theorem isSome_image_of_type {range : MediaRange} (htype : range.type = bytes "image") :
    (strstr range.text (bytes "image/")).isSome ∧ ¬ (strstr range.text (bytes "*/*")).isSome := by
  have himage := range.isSome_strstr_iff (bytes "image") []
  have hall := range.isSome_strstr_iff (bytes "*") (bytes "*")
  have hpattern : bytes "image" ++ slash :: [] = bytes "image/" := by decide
  have hpattern' : bytes "*" ++ slash :: bytes "*" = bytes "*/*" := by decide
  rw [hpattern, htype] at himage
  rw [hpattern', htype] at hall
  refine ⟨himage.mpr ⟨List.suffix_rfl, List.nil_prefix⟩, fun hsome ↦ ?_⟩
  exact absurd (hall.mp hsome).1 (by decide)

theorem isSome_all_of_text {range : MediaRange} (htype : range.type = bytes "*")
    (hsubtype : range.subtype = bytes "*") :
    range.text = bytes "*/*" ∧ ¬ (strstr range.text (bytes "image/")).isSome ∧
      (strstr range.text (bytes "*/*")).isSome := by
  have htext : range.text = bytes "*/*" := by
    rw [MediaRange.text, htype, hsubtype]
    decide
  rw [htext]
  exact ⟨rfl, by decide, by decide⟩

/-- The value that replaces a zero is not 1. -/
theorem fallbackQuality_ne_one : AcceptParse.fallbackQuality ieee ≠ 1 := by
  decide +kernel

/-! ### One entry -/

/-- What is passed to `strtof`. -/
theorem decimalPrefix_parameter (parameter : QualityParameter) :
    decimalPrefix (parameter.text.drop 3) =
      (if parameter.spaced then parameter.quality.value
        else (longestDecimal parameter.quality.text.tail).value, false) := by
  have hname : (bytes "q=").length = 2 := by decide
  rw [decimalPrefix, QualityParameter.text]
  cases parameter.spaced with
  | false =>
    have hdrop : (bytes "q=" ++ parameter.quality.text).drop 3 = parameter.quality.text.tail := by
      rw [List.drop_append, hname, List.drop_eq_nil_of_le (by decide), List.drop_one]
      rfl
    simp only [blank, Bool.false_eq_true, if_false, List.nil_append, hdrop]
  | true =>
    have hdrop : ([space] ++ (bytes "q=" ++ parameter.quality.text)).drop 3 =
        parameter.quality.text := by
      rw [← List.append_assoc]
      exact List.drop_left' (by decide)
    have hread := longestDecimal_text parameter.numeral.whole_digits
      parameter.numeral.decimals_digits
    simp only [blank, if_true, hdrop, hread]

/-- The value that is read from a positive quality up to 1 is the one that is written under the
condition of `ReadsQuality`; where it is another one and a zero, the quality is 1. -/
theorem decimalPrefix_eq_iff {parameter : QualityParameter} (hpos : 0 < parameter.quality.value)
    (hle : parameter.quality.value ≤ 1) :
    ((decimalPrefix (parameter.text.drop 3)).1 = parameter.quality.value ↔
        parameter.spaced ∨ parameter.quality.whole.head? = some 48) ∧
      ((decimalPrefix (parameter.text.drop 3)).1 = 0 → parameter.quality.value = 1 ∧
        ¬ (parameter.spaced ∨ parameter.quality.whole.head? = some 48)) := by
  obtain ⟨hsame, hone⟩ := value_tail_eq_iff parameter.numeral hpos hle
  rw [decimalPrefix_parameter]
  cases parameter.spaced with
  | true =>
    refine ⟨iff_of_true rfl (Or.inl rfl), fun hzero ↦ ?_⟩
    exact absurd hzero hpos.ne'
  | false =>
    simp only [Bool.false_eq_true, if_false, false_or]
    refine ⟨hsame, fun hzero ↦ ?_⟩
    have hhead : parameter.quality.whole.head? ≠ some 48 := by
      intro hhead
      rw [hsame.mpr hhead] at hzero
      exact hpos.ne' hzero
    exact ⟨hone hhead hzero, hhead⟩

/-- The quality of an entry for images or for all types. -/
theorem result_eq_declared_iff {entry : ValueEntry} (hrange : entry.range.IsImage)
    (hpos : ∀ parameter ∈ entry.parameter, 0 < parameter.quality.value)
    (hle : ∀ parameter ∈ entry.parameter, parameter.quality.value ≤ 1) :
    (entry.result ieee decimalPrefix).1 = entry.declared ↔ entry.ReadsQuality := by
  have himage := @ValueEntry.isSome_strstr_front entry (bytes "image/") (by decide) (by decide)
  have hall := @ValueEntry.isSome_strstr_front entry (bytes "*/*") (by decide) (by decide)
  rw [ValueEntry.result, ValueEntry.declared, ValueEntry.ReadsQuality]
  cases hparameter : entry.parameter with
  | none =>
    rcases hrange with htype | ⟨htype, hsubtype⟩
    · obtain ⟨hsome, hnone⟩ := isSome_image_of_type htype
      simp only [if_pos (himage.mpr hsome)]
      refine iff_of_true trivial fun htext ↦ hnone ?_
      rw [htext]
      decide
    · obtain ⟨htext, hnone, -⟩ := isSome_all_of_text htype hsubtype
      simp only [if_neg (himage.not.mpr hnone)]
      exact iff_of_false zero_ne_one fun hne ↦ hne htext
  | some parameter =>
    obtain ⟨hread, hzero⟩ :=
      decimalPrefix_eq_iff (hpos parameter hparameter) (hle parameter hparameter)
    have herror : (decimalPrefix (parameter.text.drop 3)).2 = false := rfl
    rcases hrange with htype | ⟨htype, hsubtype⟩
    · obtain ⟨-, hnone⟩ := isSome_image_of_type htype
      simp only [if_neg (hall.not.mpr hnone), herror, Bool.false_eq_true, if_false]
      exact hread
    · obtain ⟨-, -, hsome⟩ := isSome_all_of_text htype hsubtype
      simp only [if_pos (hall.mpr hsome)]
      by_cases hnull : (decimalPrefix (parameter.text.drop 3)).1 = 0
      · obtain ⟨hone, hnot⟩ := hzero hnull
        rw [if_pos hnull, hone]
        exact iff_of_false fallbackQuality_ne_one hnot
      · rw [if_neg hnull]
        exact hread

/-! ### The whole value -/

/-- What the function comes back with. -/
theorem qualitiesAsDeclared_iff_results {entries : List ValueEntry} (hroom : entries.length ≤ 3) :
    QualitiesAsDeclared entries ↔ keptEntries entries ≠ [] ∧
      (keptEntries entries).map (fun entry ↦ (entry.result ieee decimalPrefix).1) =
        entries.map ValueEntry.declared := by
  have hend := @endsWith_acceptEnd ieee decimalPrefix (acceptValue entries)
  rw [acceptEnd_acceptValue hroom] at hend
  constructor
  · rintro ⟨values, hvalues, hqualities⟩
    obtain ⟨hparsed, hsame⟩ := eq_of_endsWith hvalues hend
    have hsome : keptEntries entries ≠ [] := by
      intro hnone
      rw [if_pos hnone] at hparsed
      exact nomatch hparsed
    rw [if_neg hsome] at hsame
    have hresults : values = (keptEntries entries).map (ValueEntry.result ieee decimalPrefix) :=
      hsame rfl
    rw [hresults, List.map_map] at hqualities
    exact ⟨hsome, hqualities⟩
  · rintro ⟨hsome, hqualities⟩
    rw [if_neg hsome] at hend
    refine ⟨_, hend, ?_⟩
    rw [List.map_map]
    exact hqualities

/-- Every quality is read as it is written if and only if there is an entry, none is left out, and
each is of a kind whose quality is read. -/
theorem qualitiesAsDeclared_iff {entries : List ValueEntry} (himages : ImageEntries entries) :
    QualitiesAsDeclared entries ↔
      entries ≠ [] ∧ ∀ entry ∈ entries, ¬ Discarded entry.range.text ∧ entry.ReadsQuality := by
  have hentry : ∀ entry ∈ entries,
      ((entry.result ieee decimalPrefix).1 = entry.declared ↔ entry.ReadsQuality) :=
    fun entry hmem ↦ result_eq_declared_iff (himages.ranges entry hmem)
      (himages.positive entry hmem) (himages.le_one entry hmem)
  rw [qualitiesAsDeclared_iff_results himages.room]
  constructor
  · rintro ⟨hsome, hqualities⟩
    -- as many qualities as entries: no entry has been left out
    have hlength := congrArg List.length hqualities
    rw [List.length_map, List.length_map, keptEntries] at hlength
    have hkept := List.length_filter_eq_length_iff.mp hlength
    have hfilter : keptEntries entries = entries := List.filter_eq_self.mpr hkept
    rw [hfilter] at hqualities hsome
    refine ⟨hsome, fun entry hmem ↦ ⟨of_decide_eq_true (hkept entry hmem), ?_⟩⟩
    exact (hentry entry hmem).mp (List.map_inj_left.mp hqualities entry hmem)
  · rintro ⟨hsome, hall⟩
    have hfilter : keptEntries entries = entries :=
      List.filter_eq_self.mpr fun entry hmem ↦ decide_eq_true (hall entry hmem).1
    rw [hfilter]
    refine ⟨hsome, List.map_inj_left.mpr fun entry hmem ↦ ?_⟩
    exact (hentry entry hmem).mpr (hall entry hmem).2

/-! ### Two values -/

/-- `q=0.5`. -/
def halfQuality : QualityParameter :=
  ⟨false, ⟨bytes "0", some (bytes "5")⟩,
    ⟨List.all_eq_true.mp (by decide), List.all_eq_true.mp (by decide), Or.inl (by decide)⟩⟩

theorem imageEntries_png {parameter : QualityParameter} (hpos : 0 < parameter.quality.value)
    (hle : parameter.quality.value ≤ 1) (hdecimals : parameter.quality.decimals.length ≤ 3) :
    ImageEntries [⟨false, pngRange, some parameter⟩] where
  room := Nat.le_add_left 1 2
  ranges := List.forall_mem_singleton.mpr (Or.inl rfl)
  positive := List.forall_mem_singleton.mpr fun _ hmem ↦ Option.some_inj.mp hmem ▸ hpos
  le_one := List.forall_mem_singleton.mpr fun _ hmem ↦ Option.some_inj.mp hmem ▸ hle
  decimals := List.forall_mem_singleton.mpr fun _ hmem ↦ Option.some_inj.mp hmem ▸ hdecimals

/-- The quality of `image/png;q=0.5` is read. -/
theorem qualitiesAsDeclared_half : QualitiesAsDeclared [⟨false, pngRange, some halfQuality⟩] :=
  (qualitiesAsDeclared_iff (imageEntries_png (by decide +kernel) (by decide +kernel)
    (by decide))).mpr ⟨by decide, List.forall_mem_singleton.mpr ⟨by decide, Or.inr rfl⟩⟩

/-- For `image/png;q=1` the entry gets the quality 0. -/
theorem not_qualitiesAsDeclared :
    ImageEntries [⟨false, pngRange, some fullQuality⟩] ∧
      ¬ QualitiesAsDeclared [⟨false, pngRange, some fullQuality⟩] := by
  refine ⟨imageEntries_png (by decide +kernel) (by decide +kernel) (by decide), fun hdeclared ↦ ?_⟩
  have hqualities := ((qualitiesAsDeclared_iff_results (by decide)).mp hdeclared).2
  exact absurd hqualities (by decide +kernel)

end ImageApp.Requests
