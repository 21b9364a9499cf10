import ImageApp.Foundations.PathDescent
import ImageApp.Server.BoundedScans

/-!
# The bounds of the image name

`parse_name` copies a name into a buffer that grows once, from 64 bytes to 128, and an extension
into one of 5 bytes. Both loops go on to a dot or a blank, which the line need not have.
`parsesInBounds_iff` says for which lines all accesses are in bounds. It follows from what the two
loops do with a name and with an extension of any length (`boundedScanName_append`,
`boundedScanExt_append`).
-/

set_option autoImplicit false
set_option relaxedAutoImplicit false

namespace ImageApp.Requests

open Foundations.CStrings Foundations.PathDescent Server

/-- No loop of `parse_name` leaves the line, and no write leaves a work buffer. -/
def ParsesInBounds (line : List Byte) : Prop :=
  (boundedParseName line).isSome

/-- What may follow `"/?"`: a name that ends at a blank and fills the work buffer at most, or one
that leaves room for a NUL and ends at a dot, with an extension of at most four bytes and a blank
behind the dot. -/
inductive TargetFits : List Byte → Prop
  | blank {name after : List Byte} (hdot : dot ∉ name) (hspace : space ∉ name)
    (hlength : name.length ≤ 128) : TargetFits (name ++ space :: after)
  | dot {name ext after : List Byte} (hdot : dot ∉ name) (hspace : space ∉ name)
    (hlength : name.length ≤ 127) (hext : space ∉ ext) (hshort : ext.length ≤ 4) :
    TargetFits (name ++ dot :: (ext ++ space :: after))

/-- What follows the first `'/'` of a line fits, if it starts with `'?'`. -/
def LineFits (line : List Byte) : Prop :=
  ∀ front rest, line = front ++ slash :: questionMark :: rest → slash ∉ front → TargetFits rest

/-! ### The loops -/

/-- The capacity of the work buffer of the name behind `j` bytes. -/
def capacityAt (j : ℕ) : ℕ :=
  if j < imageNamePreallocation then imageNamePreallocation
  else imageNamePreallocation + imageNamePreallocation

theorem growCapacity_capacityAt (j : ℕ) :
    growCapacity (capacityAt j) (j + 1) = capacityAt (j + 1) := by
  rw [growCapacity, capacityAt, capacityAt]
  by_cases hgrow : j + 1 = imageNamePreallocation
  · rw [if_pos hgrow, if_neg (Nat.not_lt.mpr hgrow.ge)]
  · rw [if_neg hgrow]
    by_cases hsmall : j + 1 < imageNamePreallocation
    · rw [if_pos (Nat.lt_of_succ_lt hsmall), if_pos hsmall]
    · rw [if_neg (by omega), if_neg hsmall]

theorem lt_capacityAt_iff {j : ℕ} : j < capacityAt j ↔ j < 128 := by
  have hsize : imageNamePreallocation = 64 := rfl
  rw [capacityAt]
  split_ifs <;> omega

/-- The first inner loop on a name: it stays in the buffer for 128 bytes. -/
theorem boundedScanName_append {name : List Byte} (hdot : dot ∉ name) (hspace : space ∉ name)
    {stop : Byte} (hstop : stop = dot ∨ stop = space) (rest : List Byte) {j : ℕ} (hj : j ≤ 128) :
    boundedScanName (capacityAt j) j (name ++ stop :: rest) =
      if j + name.length ≤ 128 then some (name, capacityAt (j + name.length), stop :: rest)
      else none := by
  induction name generalizing j with
  | nil =>
    rw [List.nil_append, boundedScanName, if_pos hstop, List.length_nil, Nat.add_zero, if_pos hj]
  | cons byte name ih =>
    rw [List.mem_cons, not_or] at hdot hspace
    have hbyte : ¬ (byte = dot ∨ byte = space) := not_or.mpr ⟨Ne.symm hdot.1, Ne.symm hspace.1⟩
    rw [List.cons_append, boundedScanName, if_neg hbyte, growCapacity_capacityAt, List.length_cons]
    by_cases hroom : j < 128
    · rw [if_pos (lt_capacityAt_iff.mpr hroom), ih hdot.2 hspace.2 (Nat.succ_le_of_lt hroom),
        Nat.succ_eq_add_one, Nat.add_assoc, Nat.add_comm 1]
      split_ifs
      · rfl
      · rfl
    · rw [if_neg (lt_capacityAt_iff.not.mpr hroom), if_neg (by omega)]

/-- The second inner loop on an extension: it stays in the buffer for five bytes. -/
theorem boundedScanExt_append {ext : List Byte} (hspace : space ∉ ext) (rest : List Byte) {j : ℕ}
    (hj : j ≤ 5) :
    boundedScanExt 5 j (ext ++ space :: rest) = if j + ext.length ≤ 5 then some ext else none := by
  induction ext generalizing j with
  | nil =>
    rw [List.nil_append, boundedScanExt, if_pos rfl, List.length_nil, Nat.add_zero, if_pos hj]
  | cons byte ext ih =>
    rw [List.mem_cons, not_or] at hspace
    rw [List.cons_append, boundedScanExt, if_neg (Ne.symm hspace.1), List.length_cons]
    by_cases hroom : j < 5
    · rw [if_pos hroom, ih hspace.2 (Nat.succ_le_of_lt hroom), Nat.succ_eq_add_one, Nat.add_assoc,
        Nat.add_comm 1]
      split_ifs
      · rfl
      · rfl
    · rw [if_neg hroom, if_neg (by omega)]

/-! ### Behind the question mark -/

theorem boundedAfterMark_append {name : List Byte} (hdot : dot ∉ name) (hspace : space ∉ name)
    {stop : Byte} (hstop : stop = dot ∨ stop = space) (rest : List Byte) :
    boundedAfterMark (name ++ stop :: rest) =
      if name.length ≤ 128 then
        if stop = space then some .messageNotCorrect
        else if name.length < 128 then
          (boundedScanExt 5 0 (stop :: rest)).map fun ext ↦ .imageRequested name (ext.take 4)
        else none
      else none := by
  have hscan := boundedScanName_append hdot hspace hstop rest (Nat.zero_le 128)
  rw [Nat.zero_add] at hscan
  have hstart : capacityAt 0 = imageNamePreallocation := rfl
  rw [hstart] at hscan
  rw [boundedAfterMark, hscan]
  by_cases hlength : name.length ≤ 128
  · rw [if_pos hlength, if_pos hlength, Option.bind_some]
    simp only [List.head?_cons, Option.some_inj, lt_capacityAt_iff]
  · rw [if_neg hlength, if_neg hlength, Option.bind_none]

/-- What follows `"/?"` is read within the bounds if and only if it fits. -/
theorem isSome_boundedAfterMark_iff (rest : List Byte) :
    (boundedAfterMark (rest ++ [0])).isSome ↔ TargetFits rest := by
  constructor
  · intro hsome
    obtain ⟨outcome, hparse⟩ := Option.isSome_iff_exists.mp hsome
    -- in bounds, the loops end at bytes of the line
    obtain ⟨⟨name, capacity, left⟩, hname, -⟩ := Option.bind_eq_some_iff.mp hparse
    obtain ⟨left', rfl, hscan⟩ := scanName_of_bounded hname
    obtain ⟨rfl, hdot, hspace, stop, after, rfl, hstop⟩ := scanName_spec hscan
    rw [List.append_assoc, List.cons_append, boundedAfterMark_append hdot hspace hstop] at hparse
    split_ifs at hparse with hlength hblank hroom
    · rw [hblank]
      exact .blank hdot hspace hlength
    · obtain ⟨ext, hext, -⟩ := Option.map_eq_some_iff.mp hparse
      rw [← List.cons_append] at hext
      obtain ⟨hextSpace, behind, hcut⟩ := scanExt_spec (scanExt_of_bounded hext)
      rw [hcut, List.append_assoc, List.cons_append,
        boundedScanExt_append hextSpace _ (Nat.zero_le 5)] at hext
      have hshort : 0 + ext.length ≤ 5 := by
        by_contra hlong
        rw [if_neg hlong] at hext
        cases hext
      cases ext with
      | nil => exact absurd (List.cons.inj hcut).1 hblank
      | cons first tail =>
        obtain ⟨-, htail⟩ := List.cons.inj hcut
        rw [hstop.resolve_right hblank, htail]
        rw [List.length_cons] at hshort
        exact .dot hdot hspace (by omega) (fun hmem ↦ hextSpace (List.mem_cons_of_mem _ hmem))
          (by omega)
  · intro hfits
    cases hfits with
    | @blank name after hdot hspace hlength =>
      rw [List.append_assoc, List.cons_append, boundedAfterMark_append hdot hspace (Or.inr rfl),
        if_pos hlength, if_pos rfl]
      rfl
    | @dot name ext after hdot hspace hlength hext hshort =>
      have hne : ¬ dot = space := by decide
      have hextDot : space ∉ dot :: ext := by
        rw [List.mem_cons, not_or]
        exact ⟨Ne.symm hne, hext⟩
      have hscan := boundedScanExt_append hextDot (after ++ [0]) (Nat.zero_le 5)
      rw [List.length_cons, if_pos (by omega)] at hscan
      rw [List.append_assoc, List.cons_append, List.append_assoc, List.cons_append,
        boundedAfterMark_append hdot hspace (Or.inl rfl), if_pos (by omega), if_neg hne,
        if_pos (by omega), ← List.cons_append, hscan]
      rfl

/-! ### The whole line -/

theorem boundedParseName_append {front : List Byte} (hfront : slash ∉ front) (rest : List Byte) :
    boundedParseName (front ++ slash :: rest) =
      boundedAtSlash (front ++ slash :: rest) (rest ++ [0]) := by
  have hloop : ∀ line,
      boundedParseLoop line (front ++ slash :: rest) = boundedAtSlash line (rest ++ [0]) := by
    intro line
    induction front with
    | nil => rw [List.nil_append, boundedParseLoop, if_pos rfl]
    | cons byte front ih =>
      rw [List.mem_cons, not_or] at hfront
      rw [List.cons_append, boundedParseLoop, if_neg (Ne.symm hfront.1), ih hfront.2]
  exact hloop _

theorem boundedParseName_of_notMem {line : List Byte} (hslash : slash ∉ line) :
    boundedParseName line = some (.imageRequested [] []) := by
  have hloop : ∀ whole, boundedParseLoop whole line = some (.imageRequested [] []) := by
    intro whole
    induction line with
    | nil => rfl
    | cons byte line ih =>
      rw [List.mem_cons, not_or] at hslash
      rw [boundedParseLoop, if_neg (Ne.symm hslash.1), ih hslash.2]
  exact hloop line

/-- A line whose first `'/'` is not followed by `'?'` fits, and nothing is copied from it. -/
theorem lineFits_of_unmarked {front rest : List Byte} (hfront : slash ∉ front)
    (hrest : rest.head? ≠ some questionMark) : LineFits (front ++ slash :: rest) := by
  intro front' rest' hline hfront'
  obtain ⟨-, hsame⟩ := append_cons_inj hfront hfront' hline
  rw [hsame] at hrest
  exact absurd rfl hrest

theorem lineFits_marked_iff {front rest : List Byte} (hfront : slash ∉ front) :
    LineFits (front ++ slash :: questionMark :: rest) ↔ TargetFits rest := by
  refine ⟨fun hfits ↦ hfits front rest rfl hfront, fun hfits front' rest' hline hfront' ↦ ?_⟩
  obtain ⟨-, hsame⟩ := append_cons_inj hfront hfront' hline
  rw [← (List.cons.inj hsame).2]
  exact hfits

/-- `parse_name` stays in bounds on a line if and only if what follows its first `'/'` fits. -/
theorem parsesInBounds_iff (line : List Byte) : ParsesInBounds line ↔ LineFits line := by
  rw [ParsesInBounds]
  by_cases hslash : slash ∈ line
  · obtain ⟨front, rest, rfl, hfront⟩ := List.eq_append_cons_of_mem hslash
    rw [boundedParseName_append hfront]
    cases rest with
    | nil => exact iff_of_true rfl (lineFits_of_unmarked hfront nofun)
    | cons next rest =>
      rw [List.cons_append, boundedAtSlash]
      by_cases hmark : next = questionMark
      · rw [if_pos hmark, hmark, lineFits_marked_iff hfront, isSome_boundedAfterMark_iff]
      · have hunmarked : (next :: rest).head? ≠ some questionMark := fun hhead ↦
          hmark (Option.some_inj.mp hhead)
        rw [if_neg hmark]
        refine iff_of_true ?_ (lineFits_of_unmarked hfront hunmarked)
        split_ifs
        · rfl
        · rfl
  · rw [boundedParseName_of_notMem hslash]
    refine iff_of_true rfl fun front rest hline _ ↦ absurd ?_ hslash
    rw [hline]
    simp

/-- A line that ends behind `"/?"` is left, and so is the work buffer of the extension for `.tiff2`,
and that of the name for one of 128 bytes. -/
theorem not_parsesInBounds :
    (¬ ∀ line : List Byte, (0 : Byte) ∉ line → line.length ≤ 511 → ParsesInBounds line) ∧
      boundedParseName (bytes "GET /?") = none ∧
      boundedParseName (bytes "GET /?photo.tiff2 HTTP/1.1") = none ∧
      boundedParseName (bytes "GET /?" ++ List.replicate 128 97 ++ bytes ".jpg HTTP/1.1") =
        none := by
  have hnone : boundedParseName (bytes "GET /?photo.tiff2 HTTP/1.1") = none := by decide +kernel
  refine ⟨fun hbounds ↦ ?_, by decide +kernel, hnone, by decide +kernel⟩
  have hsome := hbounds (bytes "GET /?photo.tiff2 HTTP/1.1") (by decide +kernel) (by decide +kernel)
  rw [ParsesInBounds, hnone] at hsome
  exact Bool.false_ne_true hsome

end ImageApp.Requests
