import ImageApp.Cache.TableBounds
import Mathlib.Order.Bounds.Basic

/-!
# The result of a search

`findFileInCache_firstMatch` is what `find_file_in_cache` returns for a `file_map` that consists of
short strings, the empty ones of its zero padding included: the number of the first string in which
the path occurs.
-/

set_option autoImplicit false
set_option relaxedAutoImplicit false

namespace ImageApp.Cache

open Foundations.CStrings Server

variable {path : List Byte} {texts : List (List Byte)}

theorem occurs_iff (path text : List Byte) : occurs path text = true ↔ path <:+: text :=
  isSome_strstr text path

/-- The first string in which a path occurs has the least number of them. -/
theorem findIdx_occurs_iff {k : ℕ} :
    texts.findIdx? (occurs path) = some k ↔
      IsLeast {k | ∃ text, texts[k]? = some text ∧ path <:+: text} k := by
  rw [List.findIdx?_eq_some_iff_getElem]
  constructor
  · rintro ⟨hk, hfound, hbefore⟩
    refine ⟨⟨texts[k], List.getElem?_eq_getElem hk, (occurs_iff _ _).mp hfound⟩, ?_⟩
    rintro other ⟨text, htext, hoccurs⟩
    by_contra hless
    obtain ⟨hother, rfl⟩ := List.getElem?_eq_some_iff.mp htext
    exact hbefore other (Nat.not_le.mp hless) ((occurs_iff _ _).mpr hoccurs)
  · rintro ⟨⟨text, htext, hoccurs⟩, hleast⟩
    obtain ⟨hk, rfl⟩ := List.getElem?_eq_some_iff.mp htext
    refine ⟨hk, (occurs_iff _ _).mpr hoccurs, fun other hother hfound ↦ ?_⟩
    have hle := hleast ⟨_, List.getElem?_eq_getElem (hother.trans hk), (occurs_iff _ _).mp hfound⟩
    exact Nat.not_le.mpr hother hle

/-- In a map that consists of short strings, the first of them not empty, a search returns the least
number of a string in which the path occurs, or that there is none. -/
theorem findFileInCache_firstMatch {map : List Byte} (hlength : map.length = sizeFileListcache)
    (hfirst : map.head? ≠ some 0) (hstrings : map = packed texts) (hshort : Short texts) :
    ∃ lookup, findFileInCache path map = some lookup ∧
      (∀ k, lookup = .cached k ↔
        IsLeast {k | ∃ text, texts[k]? = some text ∧ path <:+: text} k) ∧
      (lookup = .notCached ↔ ∀ text ∈ texts, ¬ path <:+: text) := by
  cases texts with
  | nil =>
    rw [hstrings] at hlength
    exact absurd hlength (by decide)
  | cons text texts =>
    have hne : text ≠ [] := by
      rintro rfl
      rw [hstrings, packed_eq_cons] at hfirst
      exact hfirst rfl
    subst hstrings
    rw [findFileInCache_packed hshort hlength, if_neg hne]
    refine ⟨_, rfl, fun k ↦ ?_, ?_⟩
    · rw [← findIdx_occurs_iff]
      cases (text :: texts).findIdx? (occurs path) with
      | none => simp
      | some first => simp
    · have hnone := @List.findIdx?_eq_none_iff _ (text :: texts) (occurs path)
      simp only [Bool.eq_false_iff, ne_eq, occurs_iff] at hnone
      rw [← hnone]
      cases (text :: texts).findIdx? (occurs path) with
      | none => simp
      | some first => simp

/-- One path and the padding behind it. -/
def photoStrings : List (List Byte) :=
  bytes "../cache/photo.jpg" :: List.replicate 16365 []

/-- The path is found in the map that holds nothing else. -/
theorem findFileInCache_firstMatch_photo :
    ∃ lookup, findFileInCache (bytes "photo.jpg") (packed photoStrings) = some lookup ∧
      (lookup = .cached 0 ↔ IsLeast {k | ∃ text, photoStrings[k]? = some text ∧
        bytes "photo.jpg" <:+: text} 0) := by
  have hshort : Short photoStrings :=
    List.forall_mem_cons.mpr ⟨⟨by decide, by decide⟩, short_replicate_nil _⟩
  have hlength : (packed photoStrings).length = sizeFileListcache := by
    rw [photoStrings, packed_eq_cons, packed_replicate_nil, List.length_append, List.length_cons,
      length_zeros]
    decide
  have hfirst : (packed photoStrings).head? ≠ some 0 := by
    rw [photoStrings, packed_eq_cons]
    decide
  obtain ⟨lookup, hfind, hcached, -⟩ := findFileInCache_firstMatch hlength hfirst rfl hshort
  exact ⟨lookup, hfind, hcached 0⟩

end ImageApp.Cache
