import ImageApp.Server.Config
import Mathlib.Data.Fin.Basic
import Mathlib.Logic.Function.Basic

/-!
# Adapted images

The parts of `HandleImage.c`, `HandleImage.h` and `Utils.c` that decide under which format an image
is written, and the cache of adapted images: the list of their paths in `file_map` with the position
`seek_cache` of the next one, the descriptors and sizes in `fd_image_cache`, and the search for a
path. The mutex of the cache makes an insertion one step.
-/

set_option autoImplicit false
set_option relaxedAutoImplicit false

namespace ImageApp.Server

open Foundations.CStrings

/-- `enum ext_image`. -/
inductive ExtImage
  | jpg
  | jxr
  | png
  | webp
  | allExt
  deriving DecidableEq, Repr

/-- The format that `get_image_to_send` sets for the first entry of the list of accepted images. -/
def outputFormat : ExtImage → List Byte
  | .jpg => bytes ".jpg"
  | .png => bytes ".png"
  | .jxr => bytes ".jxr"
  | .webp => bytes ".webp"
  | .allExt => bytes ".jpg"

/-! ### The cache of adapted images -/

/-- An image that is put into the cache. Its path is a C string. -/
structure CachedImage where
  path : List Byte
  zero_notMem : (0 : Byte) ∉ path
  fd : ℤ
  fileSize : ℤ

/-- `file_map`, `seek_cache`, and the fields of `fd_image_cache` that the code uses. -/
structure ImageCache where
  fileMap : List Byte
  seekCache : ℕ
  fd : Fin 128 → ℤ
  fileSize : Fin 128 → ℤ
  e : Fin 128

/-- The cache at the start of the program. -/
def emptyCache : ImageCache where
  fileMap := zeros sizeFileListcache
  seekCache := 0
  fd := fun _ ↦ 0
  fileSize := fun _ ↦ 0
  e := 0

/-- The place after a place of `fd_image_cache`. -/
def nextE (e : Fin 128) : Fin 128 :=
  e + 1

/-- The end of `get_image_to_send`, under the mutex of the cache. A path that does not fit between
`seek_cache` and the end of `file_map` is written beyond the mapped memory. -/
def insertImage (cache : ImageCache) (image : CachedImage) : Option ImageCache :=
  if cache.seekCache + image.path.length + 1 ≤ sizeFileListcache then
    some
      { fileMap := overwrite cache.fileMap cache.seekCache (image.path ++ [0])
        seekCache := (cache.seekCache + image.path.length + 1) % sizeFileListcache
        fd := Function.update cache.fd cache.e image.fd
        fileSize := Function.update cache.fileSize cache.e image.fileSize
        e := cache.e + 1 }
  else none

/-- The result of a search in the cache: `CACHED_IMAGE` and the index, or `NOT_CACHED_IMAGE` and the
index -1. -/
inductive Lookup
  | cached (idx : ℕ)
  | notCached
  deriving DecidableEq, Repr

/-- The loop of `find_file_in_cache`, from the entry with index `i` at offset `len` on. An entry is
copied to a buffer of 128 bytes. -/
def scanEntries (path map : List Byte) (len i : ℕ) : Option Lookup :=
  if len < sizeFileListcache then
    match cstring (map.drop len) with
    | none => none
    | some buf =>
      if buf.length < 128 then
        if (strstr buf path).isSome then some (.cached i)
        else scanEntries path map (len + (buf.length + 1)) (i + 1)
      else none
  else some .notCached
termination_by sizeFileListcache - len

/-- `find_file_in_cache`. -/
def findFileInCache (path map : List Byte) : Option Lookup :=
  match cstring map with
  | none => none
  | some [] => some .notCached
  | some _ => scanEntries path map 0 0

/-- What `get_image_to_send` hands out for a cached image: its descriptor and its size. -/
def cachedFile (cache : ImageCache) (idx : ℕ) : Option (ℤ × ℤ) :=
  if hidx : idx < 128 then some (cache.fd ⟨idx, hidx⟩, cache.fileSize ⟨idx, hidx⟩) else none

/-- The search for the path of the first entry stops there. -/
theorem findFileInCache_first {path : List Byte} (hzero : (0 : Byte) ∉ path) (hne : path ≠ [])
    (hlength : path.length < 128) (rest : List Byte) :
    findFileInCache path (path ++ 0 :: rest) = some (.cached 0) := by
  have hread := cstring_append_zero hzero rest
  have hfound : (strstr path path).isSome = true :=
    (isSome_strstr path path).mpr (List.infix_refl path)
  have hscan : scanEntries path (path ++ 0 :: rest) 0 0 = some (.cached 0) := by
    rw [scanEntries, List.drop_zero, hread, if_pos (by decide)]
    simp only [if_pos hlength, hfound, if_true]
  rw [findFileInCache, hread]
  cases path with
  | nil => exact absurd rfl hne
  | cons byte path => exact hscan

/-- The search for the empty path stops at the first entry, which is not empty. -/
theorem entryAt_ne_nil_of_findFileInCache {map : List Byte} {idx : ℕ}
    (hfind : findFileInCache [] map = some (.cached idx)) : entryAt map idx ≠ some [] := by
  unfold findFileInCache at hfind
  split at hfind
  · simp at hfind
  · simp at hfind
  · rename_i text hne hread
    have hfound : (strstr text []).isSome = true := (isSome_strstr text []).mpr List.nil_infix
    rw [scanEntries, List.drop_zero, hread, if_pos (by decide)] at hfind
    simp only [hfound, if_true, Option.ite_none_right_eq_some, Option.some.injEq,
      Lookup.cached.injEq] at hfind
    rw [← hfind.2, entryAt, hread]
    intro hnil
    rw [Option.some.injEq] at hnil
    exact hne hnil

/-- The loop of `find_file_in_cache` stops at the first entry in which the path occurs. -/
theorem scanEntries_cached {path map : List Byte} {len i idx : ℕ}
    (hscan : scanEntries path map len i = some (.cached idx)) :
    ∃ j text, idx = i + j ∧ entryAt (map.drop len) j = some text ∧ path <:+: text ∧
      ∀ before < j, ∀ other, entryAt (map.drop len) before = some other → ¬ path <:+: other := by
  fun_induction scanEntries path map len i with
  | case1 | case4 | case5 => simp at hscan
  | case2 len i hlen buf hread hlength hfound =>
    rw [Option.some.injEq, Lookup.cached.injEq] at hscan
    exact ⟨0, buf, hscan.symm, hread, (isSome_strstr buf path).mp hfound, nofun⟩
  | case3 len i hlen buf hread hlength hmissed ih =>
    obtain ⟨j, text, hidx, hentry, hoccurs, hfirst⟩ := ih hscan
    have hnext : ∀ j, entryAt (map.drop len) (j + 1) =
        entryAt (map.drop (len + (buf.length + 1))) j := by
      intro j
      rw [entryAt, hread, Option.bind_some, List.drop_drop]
    refine ⟨j + 1, text, by omega, (hnext j).trans hentry, hoccurs, fun before hbefore other ↦ ?_⟩
    cases before with
    | zero =>
      rw [entryAt, hread, Option.some.injEq]
      rintro rfl
      rw [← isSome_strstr]
      exact hmissed
    | succ before =>
      rw [hnext before]
      exact hfirst before (by omega) other

/-- A search that succeeds has found the first entry in which the path occurs, and it is not empty.
-/
theorem findFileInCache_cached {path map : List Byte} {idx : ℕ}
    (hfind : findFileInCache path map = some (.cached idx)) :
    ∃ text, entryAt map idx = some text ∧ text ≠ [] ∧ path <:+: text ∧
      ∀ before < idx, ∀ other, entryAt map before = some other → ¬ path <:+: other := by
  have hscan : scanEntries path map 0 0 = some (.cached idx) := by
    unfold findFileInCache at hfind
    split at hfind
    · simp at hfind
    · simp at hfind
    · exact hfind
  obtain ⟨j, text, hidx, hentry, hoccurs, hfirst⟩ := scanEntries_cached hscan
  rw [Nat.zero_add] at hidx
  subst hidx
  rw [List.drop_zero] at hentry hfirst
  refine ⟨text, hentry, ?_, hoccurs, hfirst⟩
  rintro rfl
  have hnil := List.eq_nil_of_infix_nil hoccurs
  subst hnil
  exact entryAt_ne_nil_of_findFileInCache hfind hentry

/-- A loop of `find_file_in_cache` that reaches the end has met no entry in which the path occurs.
-/
theorem scanEntries_notCached {path map : List Byte} {len i : ℕ}
    (hmap : map.length ≤ sizeFileListcache)
    (hscan : scanEntries path map len i = some .notCached) {j : ℕ} {text : List Byte}
    (hentry : entryAt (map.drop len) j = some text) : ¬ path <:+: text := by
  fun_induction scanEntries path map len i generalizing j with
  | case1 | case2 | case4 => simp at hscan
  | case3 len i hlen buf hread hlength hmissed ih =>
    cases j with
    | zero =>
      rw [entryAt, hread, Option.some.injEq] at hentry
      rw [← hentry, ← isSome_strstr]
      exact hmissed
    | succ j =>
      rw [entryAt, hread, Option.bind_some, List.drop_drop] at hentry
      exact ih hscan hentry
  | case5 len i hlen =>
    rw [List.drop_eq_nil_of_le (by omega)] at hentry
    cases j with
    | zero => simp [entryAt, cstring] at hentry
    | succ j => simp [entryAt, cstring] at hentry

/-- A search that fails in a list that does not start with an empty entry has met no entry in which
the path occurs. -/
theorem findFileInCache_notCached {path map : List Byte} (hmap : map.length ≤ sizeFileListcache)
    (hfirst : cstring map ≠ some []) (hfind : findFileInCache path map = some .notCached) {idx : ℕ}
    {text : List Byte} (hentry : entryAt map idx = some text) : ¬ path <:+: text := by
  unfold findFileInCache at hfind
  split at hfind
  · simp at hfind
  · rename_i hread
    exact absurd hread hfirst
  · exact @scanEntries_notCached path map 0 0 hmap hfind idx text hentry

end ImageApp.Server
