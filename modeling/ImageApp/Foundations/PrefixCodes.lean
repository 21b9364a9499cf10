import Mathlib.Data.List.Basic
import Mathlib.Data.Sigma.Basic
import Mathlib.InformationTheory.Coding.UniquelyDecodable

/-!
# Texts that tell where they end

A way of writing values is self-delimiting when what is written tells the value and where it ends,
whatever follows. Values of one length, values that end at a stop sign, and tags of which none
starts another one are written so, and self-delimiting parts stay so when they are put one after the
other, also when the kind of the second depends on the first.

`flatMap_injective` is what this is for: values written one after the other, with nothing in
between, can be read back.
-/

set_option autoImplicit false
set_option relaxedAutoImplicit false

namespace ImageApp.Foundations.PrefixCodes

variable {Value Other Symbol : Type*}

/-- What is written tells the value and what follows it. -/
def SelfDelimiting (write : Value → List Symbol) : Prop :=
  ∀ first second rest rest', write first ++ rest = write second ++ rest' →
    first = second ∧ rest = rest'

/-! ### Parts -/

/-- Different texts of one length. -/
theorem selfDelimiting_of_length {write : Value → List Symbol} {length : ℕ}
    (hlength : ∀ value, (write value).length = length) (hinjective : Function.Injective write) :
    SelfDelimiting write := by
  intro first second rest rest' heq
  obtain ⟨hsame, hrest⟩ := List.append_inj heq ((hlength first).trans (hlength second).symm)
  exact ⟨hinjective hsame, hrest⟩

/-- Tags of which none starts another one. -/
theorem selfDelimiting_of_prefixFree {write : Value → List Symbol}
    (hfree : ∀ first second, write first <+: write second → first = second) :
    SelfDelimiting write := by
  intro first second rest rest' heq
  have hsame : first = second := by
    rcases List.prefix_or_prefix_of_prefix (List.prefix_append (write first) rest)
      (heq ▸ List.prefix_append (write second) rest') with hstarts | hstarts
    · exact hfree first second hstarts
    · exact (hfree second first hstarts).symm
  subst hsame
  exact ⟨rfl, List.append_cancel_left heq⟩

/-- The first stop sign is where the text ends. -/
theorem eq_of_append_stop {stop : Symbol} {text text' rest rest' : List Symbol}
    (htext : stop ∉ text) (htext' : stop ∉ text')
    (heq : text ++ stop :: rest = text' ++ stop :: rest') : text = text' ∧ rest = rest' := by
  induction text generalizing text' with
  | nil =>
    cases text' with
    | nil => exact ⟨rfl, (List.cons.inj heq).2⟩
    | cons symbol text' => exact absurd ((List.cons.inj heq).1 ▸ List.mem_cons_self) htext'
  | cons symbol text ih =>
    cases text' with
    | nil => exact absurd ((List.cons.inj heq).1 ▸ List.mem_cons_self) htext
    | cons symbol' text' =>
      obtain ⟨hsymbol, hbehind⟩ := List.cons.inj heq
      rw [List.mem_cons, not_or] at htext htext'
      obtain ⟨hsame, hrest⟩ := ih htext.2 htext'.2 hbehind
      exact ⟨by rw [hsymbol, hsame], hrest⟩

/-- Texts that end at a stop sign. -/
theorem selfDelimiting_stop {write : Value → List Symbol} {stop : Symbol}
    (hinjective : Function.Injective write) (hstop : ∀ value, stop ∉ write value) :
    SelfDelimiting fun value ↦ write value ++ [stop] := by
  intro first second rest rest' heq
  rw [List.append_assoc, List.append_assoc] at heq
  obtain ⟨hsame, hrest⟩ := eq_of_append_stop (hstop first) (hstop second) heq
  exact ⟨hinjective hsame, hrest⟩

/-! ### Putting parts together -/

/-- A constant text in front. -/
theorem SelfDelimiting.constAppend {write : Value → List Symbol} (hwrite : SelfDelimiting write)
    (front : List Symbol) : SelfDelimiting fun value ↦ front ++ write value := by
  intro first second rest rest' heq
  rw [List.append_assoc, List.append_assoc] at heq
  exact hwrite first second rest rest' (List.append_cancel_left heq)

/-- A constant text behind. -/
theorem SelfDelimiting.appendConst {write : Value → List Symbol} (hwrite : SelfDelimiting write)
    (back : List Symbol) : SelfDelimiting fun value ↦ write value ++ back := by
  intro first second rest rest' heq
  rw [List.append_assoc, List.append_assoc] at heq
  obtain ⟨hsame, hrest⟩ := hwrite first second _ _ heq
  exact ⟨hsame, List.append_cancel_left hrest⟩

/-- Two parts, of which the first tells how the second is written. -/
theorem SelfDelimiting.sigma {Kind : Value → Type*} {write : Value → List Symbol}
    {writeKind : ∀ value, Kind value → List Symbol} (hwrite : SelfDelimiting write)
    (hkind : ∀ value, SelfDelimiting (writeKind value)) :
    SelfDelimiting fun pair : Sigma Kind ↦ write pair.1 ++ writeKind pair.1 pair.2 := by
  rintro ⟨first, kind⟩ ⟨second, kind'⟩ rest rest' heq
  rw [List.append_assoc, List.append_assoc] at heq
  obtain ⟨rfl, hbehind⟩ := hwrite first second _ _ heq
  obtain ⟨rfl, hrest⟩ := hkind first kind kind' rest rest' hbehind
  exact ⟨rfl, hrest⟩

/-- Two parts. -/
theorem SelfDelimiting.prod {write : Value → List Symbol} {writeOther : Other → List Symbol}
    (hwrite : SelfDelimiting write) (hother : SelfDelimiting writeOther) :
    SelfDelimiting fun pair : Value × Other ↦ write pair.1 ++ writeOther pair.2 := by
  rintro ⟨first, other⟩ ⟨second, other'⟩ rest rest' heq
  rw [List.append_assoc, List.append_assoc] at heq
  obtain ⟨rfl, hbehind⟩ := hwrite first second _ _ heq
  obtain ⟨rfl, hrest⟩ := hother other other' rest rest' hbehind
  exact ⟨rfl, hrest⟩

/-! ### Rows of values -/

/-- The texts are a code in which every row of them can be told apart. -/
theorem SelfDelimiting.uniquelyDecodable {write : Value → List Symbol}
    (hwrite : SelfDelimiting write) (hne : ∀ value, write value ≠ []) :
    InformationTheory.UniquelyDecodable (Set.range write) := by
  intro first
  induction first with
  | nil =>
    intro second _ hsecond heq
    cases second with
    | nil => rfl
    | cons text second =>
      obtain ⟨value, rfl⟩ := hsecond text List.mem_cons_self
      rw [List.flatten_nil, List.flatten_cons, eq_comm, List.append_eq_nil_iff] at heq
      exact absurd heq.1 (hne value)
  | cons text first ih =>
    intro second hfirst hsecond heq
    obtain ⟨hhead, hlater⟩ := List.forall_mem_cons.mp hfirst
    obtain ⟨value, rfl⟩ := hhead
    cases second with
    | nil =>
      rw [List.flatten_nil, List.flatten_cons, List.append_eq_nil_iff] at heq
      exact absurd heq.1 (hne value)
    | cons text' second =>
      obtain ⟨hhead', hlater'⟩ := List.forall_mem_cons.mp hsecond
      obtain ⟨value', rfl⟩ := hhead'
      rw [List.flatten_cons, List.flatten_cons] at heq
      obtain ⟨rfl, hrest⟩ := hwrite value value' _ _ heq
      rw [ih second hlater hlater' hrest]

/-- Values that are written one after the other can be read back. -/
theorem SelfDelimiting.flatMap_injective {write : Value → List Symbol}
    (hwrite : SelfDelimiting write) (hne : ∀ value, write value ≠ []) :
    Function.Injective fun values : List Value ↦ values.flatMap write := by
  intro first second heq
  have hinjective : Function.Injective write := fun value value' hsame ↦
    (hwrite value value' [] [] (by rw [hsame])).1
  have hrange : ∀ values : List Value, ∀ text ∈ values.map write, text ∈ Set.range write := by
    intro values text hmem
    obtain ⟨value, -, rfl⟩ := List.mem_map.mp hmem
    exact ⟨value, rfl⟩
  apply List.map_injective_iff.mpr hinjective
  apply hwrite.uniquelyDecodable hne _ _ (hrange first) (hrange second)
  rw [← List.flatMap_def, ← List.flatMap_def]
  exact heq

end ImageApp.Foundations.PrefixCodes
