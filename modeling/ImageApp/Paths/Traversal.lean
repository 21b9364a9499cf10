import ImageApp.Foundations.PathDescent
import ImageApp.Server.RequestLine
import ImageApp.Server.Strings

/-!
# Paths a request can reach

`handle_client` opens two paths that contain text of the request: the image in its directory and the
adapted image in the cache. Both are a fixed prefix followed by the accepted name, and this module
decides for which request lines the part after the prefix climbs above the prefix.

The image path does so exactly for the lines of `EscapingTarget`, where the name consists of slashes
and the extension begins as a parent directory: the name has no dots, so a parent directory can only
be assembled from the four bytes of the extension, and a name with a component of its own is one
level further down. Both are read up to a NUL, and the line may go on behind it. In the cache path
the quality stands between the name and the extension, its component goes one level down, and the
extension has room for one step up only.
-/

set_option autoImplicit false
set_option relaxedAutoImplicit false

namespace ImageApp.Paths

open Foundations.CStrings Foundations.PathDescent Foundations.DecimalRows Server

/-! ### The image path -/

/-- Behind its first slash, which no NUL precedes, the line goes on with a question mark, a name of
slashes, and a text that starts as a parent directory. The name ends at a dot, has no blank, and may
hold a NUL with any text behind it. -/
def EscapingTarget (line : List Byte) : Prop :=
  ∃ front name text, line = front ++ slash :: questionMark :: (name ++ dot :: text) ∧
    (0 : Byte) ∉ front ∧ slash ∉ front ∧ dot ∉ name ∧ space ∉ name ∧
      (∀ byte ∈ untilNul name, byte = slash) ∧
      (bytes ". " <+: text ∨ [dot, 0] <+: text ∨ bytes "/.." <+: text ∨ bytes "./" <+: text)

/-- The texts behind a dot that make it leave the directory. -/
def Escapes (tail : List Byte) : Prop :=
  tail = [dot] ∨ tail = [slash, dot, dot] ∨ [dot, slash] <+: tail

/-- With a slash behind the dot, what leaves the directory is a double dot right after that slash,
or one right before it. -/
theorem escapes_append_slash_iff {first rest : List Byte} (hfirst : slash ∉ first) :
    Escapes (first ++ slash :: rest) ↔ (first = [] ∧ rest = [dot, dot]) ∨ first = [dot] := by
  have hdistinct : slash ≠ dot := by decide
  constructor
  · rintro (hsingle | hneutral | ⟨text, hdouble⟩)
    · have hmem : slash ∈ [dot] := hsingle ▸ List.mem_append_right _ List.mem_cons_self
      exact absurd (List.mem_singleton.mp hmem) hdistinct
    · cases first with
      | nil => exact Or.inl ⟨rfl, (List.cons.inj hneutral).2⟩
      | cons byte first =>
        rw [List.cons_append, List.cons.injEq] at hneutral
        exact absurd (hneutral.1 ▸ List.mem_cons_self) hfirst
    · match first, hfirst, hdouble with
      | [], _, hdouble => exact absurd (List.cons.inj hdouble).1.symm hdistinct
      | [byte], _, hdouble =>
        exact Or.inr (by rw [← (List.cons.inj hdouble).1])
      | byte :: next :: more, hmore, hdouble =>
        have hnext := (List.cons.inj (List.cons.inj hdouble).2).1
        exact absurd (hnext ▸ List.mem_cons_of_mem _ List.mem_cons_self) hmore
  · rintro (⟨rfl, rfl⟩ | rfl)
    · exact Or.inr (Or.inl rfl)
    · exact Or.inr (Or.inr ⟨rest, rfl⟩)

/-- A dot followed by at most three bytes, seen as a path, leaves the directory it starts in exactly
when the three bytes escape. -/
theorem staysInside_dot_cons_iff {tail : List Byte} (htail : tail.length ≤ 3) :
    StaysInside slash dot (dot :: tail) ↔ ¬ Escapes tail := by
  have hdistinct : slash ≠ dot := by decide
  by_cases hmem : slash ∈ tail
  · obtain ⟨first, rest, rfl, hfirst⟩ := List.eq_append_cons_of_mem hmem
    rw [List.length_append, List.length_cons] at htail
    have hhead : slash ∉ dot :: first := by
      rw [List.mem_cons, not_or]
      exact ⟨hdistinct, hfirst⟩
    rw [escapes_append_slash_iff hfirst, StaysInside, ← List.cons_append, components_append_cons,
      components_of_notMem hhead, List.singleton_append]
    by_cases hneutral : first = []
    · rw [hneutral, List.length_nil] at htail
      have hshort : rest.length ≤ 2 := by omega
      have hrest := staysInside_iff_of_length_le_two hdistinct hshort
      unfold StaysInside at hrest
      simp [hneutral, descend, hrest]
    · by_cases hdouble : first = [dot]
      · simp [hdouble, descend]
      · -- A component that is more than dots takes the walk below the directory.
        have hbelow : (descend dot 1 (components slash rest)).isSome = true :=
          isSome_descend_of_length_lt slash dot (by omega)
        simp [descend, hneutral, hdouble, hbelow]
  · have hwhole : slash ∉ dot :: tail := by
      rw [List.mem_cons, not_or]
      exact ⟨hdistinct, hmem⟩
    have hescapes : Escapes tail ↔ tail = [dot] := by
      refine ⟨?_, Or.inl⟩
      rintro (hsingle | rfl | ⟨text, rfl⟩)
      · exact hsingle
      · exact absurd List.mem_cons_self hmem
      · exact absurd (List.mem_cons_of_mem _ List.mem_cons_self) hmem
    rw [hescapes, StaysInside, components_of_notMem hwhole]
    by_cases hdouble : tail = [dot]
    · simp [hdouble, descend]
    · by_cases hneutral : tail = []
      · simp [hneutral, descend]
      · simp [descend, hneutral, hdouble]

/-- Behind a dot and at most three bytes, a slash leaves room for two. -/
theorem length_le_two_of_append_slash {tail front rest : List Byte} (htail : tail.length ≤ 3)
    (hsplit : dot :: tail = front ++ slash :: rest) : rest.length ≤ 2 := by
  cases front with
  | nil => exact absurd (List.cons.inj hsplit).1 (by decide)
  | cons byte front =>
    have hrest : tail = front ++ slash :: rest := (List.cons.inj hsplit).2
    rw [hrest, List.length_append, List.length_cons] at htail
    omega

/-- A name without dots, with an extension of a dot and at most three bytes, leaves the directory
exactly when the name consists of slashes and the extension escapes. -/
theorem staysInside_name_iff {name tail : List Byte} (hname : dot ∉ name)
    (htail : tail.length ≤ 3) :
    StaysInside slash dot (name ++ dot :: tail) ↔
      ¬ ((∀ byte ∈ name, byte = slash) ∧ Escapes tail) := by
  obtain ⟨depth, last, hlast, hdotLast, hwalk, hslashes⟩ := exists_last_component slash hname
  rw [StaysInside, hwalk, ← hslashes]
  cases last with
  | nil =>
    rw [List.nil_append]
    by_cases hdepth : depth = 0
    · have hext := staysInside_dot_cons_iff htail
      unfold StaysInside at hext
      rw [hdepth, hext]
      simp
    · have hinside : (descend dot depth (components slash (dot :: tail))).isSome = true := by
        apply isSome_descend_of_length_lt slash dot
        rw [List.length_cons]
        omega
      simp [hdepth, hinside]
  | cons byte last =>
    have hbyte : byte ≠ dot := fun h ↦ hdotLast (h ▸ List.mem_cons_self)
    have hinside := isSome_descend_of_proper slash dot depth hlast List.mem_cons_self hbyte
      fun front rest ↦ length_le_two_of_append_slash htail
    exact iff_of_true hinside fun hescapes ↦ List.cons_ne_nil _ _ hescapes.1.2

/-- Whether the three bytes that are kept of an extension escape can be read off the line. -/
theorem escapes_take_iff {tail : List Byte} (htail : space ∉ tail) (after : List Byte) :
    Escapes (untilNul (tail.take 3)) ↔ bytes ". " <+: tail ++ space :: after ∨
      [dot, 0] <+: tail ++ space :: after ∨ bytes "/.." <+: tail ++ space :: after ∨
        bytes "./" <+: tail ++ space :: after := by
  rw [show bytes ". " = [dot, space] by decide, show bytes "/.." = [slash, dot, dot] by decide,
    show bytes "./" = [dot, slash] by decide, Escapes]
  have hdot : dot ≠ space := by decide
  have hslash : slash ≠ space := by decide
  match tail, htail with
  | [], _ => simp [List.cons_prefix_cons, hdot, hslash]
  | [first], _ => grind [untilNul_cons, untilNul_nil]
  | [first, second], hmem => grind [untilNul_cons, untilNul_nil]
  | first :: second :: third :: rest, hmem => grind [untilNul_cons, untilNul_nil]

/-- An accepted name of slashes with an escaping extension comes from a line with an escaping
target, and from no other. -/
theorem escapingTarget_iff {front name tail after : List Byte} (hzero : (0 : Byte) ∉ front)
    (hfront : slash ∉ front) (hname : dot ∉ name) (hblank : space ∉ name) (htail : space ∉ tail) :
    EscapingTarget
        (front ++ slash :: questionMark :: (name ++ dot :: (tail ++ space :: after))) ↔
      (∀ byte ∈ untilNul name, byte = slash) ∧ Escapes (untilNul (tail.take 3)) := by
  rw [escapes_take_iff htail after]
  constructor
  · rintro ⟨front', name', text, hline, -, hfront', hdots, -, hslashes, hescapes⟩
    obtain ⟨-, htarget⟩ := append_cons_inj hfront hfront' hline
    obtain ⟨rfl, rfl⟩ := append_cons_inj hname hdots (List.cons.inj htarget).2
    exact ⟨hslashes, hescapes⟩
  · rintro ⟨hslashes, hescapes⟩
    exact ⟨front, name, tail ++ space :: after, rfl, hzero, hfront, hname, hblank, hslashes,
      hescapes⟩

/-- The image path of an accepted line leaves the image directory exactly when the line has an
escaping target. -/
theorem staysInside_imagePath_iff {line imageName ext : List Byte}
    (hparse : parseName line = some (.imageRequested imageName ext)) :
    StaysInside slash dot ((imagePath imageName ext).drop imageDir.length) ↔
      ¬ EscapingTarget line := by
  rw [imagePath, List.append_assoc, List.drop_left]
  rcases parseName_spec hparse with ⟨hslash, rfl, rfl⟩ | ⟨front, text, rfl, hzero, hfront, htext⟩
  · apply iff_of_true (by decide)
    rintro ⟨front, name, text, rfl, hzero, -⟩
    exact hslash (slash_mem_untilNul hzero _)
  · obtain ⟨name, tail, after, rfl, hdot, hspace, htail, rfl, rfl⟩ := htext
    have hcut : dot ∉ untilNul name := fun hmem ↦ hdot (mem_of_mem_untilNul hmem)
    have hlength : (untilNul (tail.take 3)).length ≤ 3 :=
      (length_untilNul_le _).trans (List.length_take_le 3 tail)
    rw [staysInside_name_iff hcut hlength,
      escapingTarget_iff hzero hfront hdot hspace htail]

theorem staysInside_imagePath_jpg :
    StaysInside slash dot ((imagePath (bytes "photo") (bytes ".jpg")).drop imageDir.length) ↔
      ¬ EscapingTarget (bytes "GET /?photo.jpg HTTP/1.1") :=
  staysInside_imagePath_iff (by decide)

-- A NUL between the question mark and the dot is not part of the name.
example : parseName (bytes "GET /?" ++ 0 :: bytes "../x HTTP/1.1") =
    some (.imageRequested [] (bytes "../x")) := by decide

/-- The line `GET /?../x HTTP/1.1` is accepted, and it asks for `../images/../x`. -/
theorem not_staysInside_imagePath :
    ¬ ∀ line imageName ext, parseName line = some (.imageRequested imageName ext) →
      StaysInside slash dot ((imagePath imageName ext).drop imageDir.length) := by
  intro hinside
  exact absurd (hinside (bytes "GET /?../x HTTP/1.1") [] (bytes "../x") (by decide)) (by decide)

/-! ### The cache path -/

/-- The text of a quality is a first digit and bytes that are not slashes. -/
theorem qualityText_spec (arith : Arithmetic) (n : ℚ) :
    ∃ first rest, qualityText arith n = first :: rest ∧ first ≠ dot ∧ slash ∉ first :: rest := by
  rw [qualityText]
  split_ifs
  · refine ⟨48, dot :: (numeral (decimalPart arith n).toNat).take 8, ?_, by decide, ?_⟩
    · rw [show bytes "0." = [48, dot] by decide]
      rfl
    · have hdigits : slash ∉ (numeral (decimalPart arith n).toNat).take 8 := fun hmem ↦
        notMem_numeral (Or.inl (by decide)) _ (List.mem_of_mem_take hmem)
      simp only [List.mem_cons, not_or]
      exact ⟨by decide, by decide, hdigits⟩
  · exact ⟨49, bytes ".00000000", by decide, by decide, by decide⟩

/-- The cache path of an accepted line stays in the cache directory, whatever the quality, the
dimensions and the colors. -/
theorem staysInside_cachePath {line imageName ext : List Byte}
    (hparse : parseName line = some (.imageRequested imageName ext)) (arith : Arithmetic)
    (beyond : List Byte) (quality : ℚ) (width height colors : ℤ) :
    StaysInside slash dot
      ((cachePath (buildImageNameCache arith beyond imageName quality width height colors) ext).drop
        imageCache.length) := by
  have haccepted := acceptedName_of_parseName hparse
  obtain ⟨depth, last, hlast, -, hwalk, -⟩ :=
    exists_last_component slash haccepted.dot_notMem
  obtain ⟨first, rest, hquality, hfirst, hslash⟩ := qualityText_spec arith quality
  have hnumeral : ∀ value, slash ∉ numeral value := notMem_numeral (Or.inl (by decide))
  set key := first :: rest ++ numeral width.toNat ++ numeral height.toNat ++ numeral colors.toNat
    with hkey
  -- The component that ends in the key goes down, and the extension goes up at most once.
  have hbody : slash ∉ last ++ key := by
    simp only [hkey, List.mem_append, not_or]
    exact ⟨hlast, ⟨⟨hslash, hnumeral _⟩, hnumeral _⟩, hnumeral _⟩
  have hmem : first ∈ last ++ key := by
    apply List.mem_append_right last
    rw [hkey, List.append_assoc, List.append_assoc]
    exact List.mem_append_left _ List.mem_cons_self
  have hext : ∀ front rest, ext = front ++ slash :: rest → rest.length ≤ 2 := by
    intro front rest hsplit
    rcases haccepted.ext_cases with ⟨-, rfl⟩ | ⟨tail, rfl, htail, -⟩
    · exact absurd hsplit.symm (by simp)
    · exact length_le_two_of_append_slash htail hsplit
  have hpath : (cachePath (buildImageNameCache arith beyond imageName quality width height colors)
      ext).drop imageCache.length = imageName ++ (key ++ ext) := by
    rw [cachePath, List.append_assoc, List.drop_left, buildImageNameCache_eq, hquality, hkey]
    simp only [List.append_assoc]
  rw [hpath, StaysInside, hwalk, ← List.append_assoc]
  exact isSome_descend_of_proper slash dot depth hbody hmem hfirst hext

theorem staysInside_cachePath_jpg :
    StaysInside slash dot
      ((cachePath (buildImageNameCache ieee [] (bytes "photo") (1 / 2) 320 240 16)
        (bytes ".jpg")).drop imageCache.length) :=
  @staysInside_cachePath (bytes "GET /?photo.jpg HTTP/1.1") _ _ (by decide) ieee [] (1 / 2) 320
    240 16

end ImageApp.Paths
