import ImageApp.Foundations.DecimalRows
import ImageApp.Foundations.GuardedRuns
import ImageApp.Server.HandleImage

/-!
# The two rings of the image cache

The cache keeps the paths of the adapted images one after another in `file_map`, and their
descriptors and sizes in the 128 slots of `fd_image_cache`. A search returns the number of the entry
it has found, and that number is used as the index of the slot. So entry number and slot index have
to agree, while `seek_cache` goes around in 16384 bytes and `E` in 128 slots.

`hitsAreRight_of_guarded` is about every run of insertions in which each path is written as entry
number `E`, and leaves either nothing of older entries behind it or replaces an entry of its own
length: every hit hands out the file of an insertion of the path. `guarded_of_fits` says that a run
meets this until one of the rings is full, and `not_hitsAreRight` is the first insertion after
`fd_image_cache` is full.
-/

set_option autoImplicit false
set_option relaxedAutoImplicit false

namespace ImageApp.Cache

open Foundations.CStrings Foundations.DecimalRows Foundations.GuardedRuns Server

/-! ### Runs of insertions -/

/-- The cache with everything that was inserted in it. -/
structure CacheRun where
  cache : ImageCache
  inserted : List CachedImage

/-- An insertion. -/
def cacheStep (state : CacheRun) (image : CachedImage) : Option CacheRun :=
  (insertImage state.cache image).map fun cache ↦
    { cache := cache, inserted := state.inserted ++ [image] }

/-- The cache at the start of the program. -/
def startRun : CacheRun where
  cache := emptyCache
  inserted := []

/-- A hit whose entry is the path hands out the descriptor and the size of an insertion of the path.
-/
def HitsAreRight (state : CacheRun) : Prop :=
  ∀ path idx, findFileInCache path state.cache.fileMap = some (.cached idx) →
    entryAt state.cache.fileMap idx = some path →
      ∃ image ∈ state.inserted, image.path = path ∧
        cachedFile state.cache idx = some (image.fd, image.fileSize)

/-- The path is written as entry number `E`, and it leaves no byte of older entries behind it or has
the length of the entry that it replaces. -/
def WrittenInStep (state : CacheRun) (image : CachedImage) : Prop :=
  (state.cache.fileMap.take state.cache.seekCache).count 0 = state.cache.e ∧
    ((∀ byte ∈ state.cache.fileMap.drop (state.cache.seekCache + image.path.length + 1), byte = 0) ∨
      (untilNul (state.cache.fileMap.drop state.cache.seekCache)).length = image.path.length)

/-! ### Aligned rings -/

/-- The paths of the images one after another. -/
def paths (ring : List CachedImage) : List Byte :=
  packed (ring.map CachedImage.path)

theorem paths_append (first second : List CachedImage) :
    paths (first ++ second) = paths first ++ paths second := by
  rw [paths, List.map_append, packed_append]
  rfl

theorem paths_singleton (image : CachedImage) : paths [image] = image.path ++ [0] :=
  packed_singleton image.path

/-- The paths with one more image. -/
theorem length_paths_concat (ring : List CachedImage) (image : CachedImage) :
    (paths (ring ++ [image])).length = (paths ring).length + image.path.length + 1 := by
  rw [paths_append, paths_singleton, List.length_append, List.length_append,
    List.length_singleton, Nat.add_assoc]

theorem zero_notMem_of_mem_map {ring : List CachedImage} :
    ∀ text ∈ ring.map CachedImage.path, (0 : Byte) ∉ text := by
  intro text hmem
  obtain ⟨image, -, rfl⟩ := List.mem_map.mp hmem
  exact image.zero_notMem

/-- The entries of `file_map` are the paths of the images in `before` and `after`, `seek_cache` is
between them, and the slots with the numbers of the entries hold the descriptors and sizes. -/
structure Aligned (state : CacheRun) (before after : List CachedImage) : Prop where
  subset : ∀ image ∈ before ++ after, image ∈ state.inserted
  fileMap_eq : ∃ count, state.cache.fileMap = paths before ++ (paths after ++ zeros count)
  length_eq : state.cache.fileMap.length = sizeFileListcache
  seekCache_eq : state.cache.seekCache = (paths before).length
  cachedFile_eq : ∀ idx image, (before ++ after)[idx]? = some image →
    cachedFile state.cache idx = some (image.fd, image.fileSize)

/-- Aligned rings make every hit right. -/
theorem hitsAreRight_of_aligned {state : CacheRun} {before after : List CachedImage}
    (haligned : Aligned state before after) : HitsAreRight state := by
  intro path idx hfind hentry
  obtain ⟨count, hmap⟩ := haligned.fileMap_eq
  have hread := hentry
  rw [hmap, ← List.append_assoc, ← paths_append, paths,
    entryAt_packed_append zero_notMem_of_mem_map] at hread
  split_ifs at hread with hidx
  · rw [List.getElem?_map, Option.map_eq_some_iff] at hread
    obtain ⟨image, himage, rfl⟩ := hread
    exact ⟨image, haligned.subset image (List.mem_of_getElem? himage), rfl,
      haligned.cachedFile_eq idx image himage⟩
  · -- Behind the entries only the empty path can be read, and the search never finds it there.
    have hnil := eq_nil_of_entryAt_zeros hread
    subst hnil
    exact absurd hentry (entryAt_ne_nil_of_findFileInCache hfind)

/-- The number of the entry at `seek_cache`. -/
theorem count_take_seekCache {state : CacheRun} {before after : List CachedImage}
    (haligned : Aligned state before after) :
    (state.cache.fileMap.take state.cache.seekCache).count 0 = before.length := by
  obtain ⟨count, hmap⟩ := haligned.fileMap_eq
  rw [hmap, haligned.seekCache_eq, List.take_left', paths, count_zero_packed zero_notMem_of_mem_map,
    List.length_map]
  rfl

/-- An insertion keeps the size of `file_map`. -/
theorem length_fileMap_insert {cache cache' : ImageCache} {image : CachedImage}
    (hstep : insertImage cache image = some cache')
    (hlength : cache.fileMap.length = sizeFileListcache) :
    cache'.fileMap.length = sizeFileListcache := by
  simp only [insertImage, Option.ite_none_right_eq_some, Option.some.injEq] at hstep
  obtain ⟨hfits, rfl⟩ := hstep
  rw [← hlength]
  apply length_overwrite
  rw [hlength, List.length_append, List.length_singleton]
  exact hfits

/-- The slots after an insertion: the one at `E` is new, the others are as they were. -/
theorem cachedFile_insert {cache cache' : ImageCache} {image : CachedImage}
    (hstep : insertImage cache image = some cache') (idx : ℕ) :
    cachedFile cache' idx =
      if idx = cache.e then some (image.fd, image.fileSize) else cachedFile cache idx := by
  simp only [insertImage, Option.ite_none_right_eq_some, Option.some.injEq] at hstep
  obtain ⟨-, rfl⟩ := hstep
  by_cases hbound : idx < 128
  · by_cases hslot : idx = cache.e
    · subst hslot
      simp [cachedFile]
    · have hne : (⟨idx, hbound⟩ : Fin 128) ≠ cache.e := fun heq ↦ hslot (congrArg Fin.val heq)
      simp [cachedFile, hbound, hslot, Function.update_of_ne hne]
  · have hslot : idx ≠ cache.e := fun heq ↦ hbound (heq ▸ cache.e.isLt)
    simp [cachedFile, hbound, hslot]

/-! ### An insertion keeps the rings aligned -/

/-- What is left of the older entries behind a path that is written in step: none of them, or all
but the one that it replaces. -/
theorem exists_rest {image : CachedImage} {after : List CachedImage} {count : ℕ}
    (hleft : (∀ byte ∈ (paths after ++ zeros count).drop (image.path.length + 1), byte = 0) ∨
      (untilNul (paths after ++ zeros count)).length = image.path.length) :
    ∃ rest left,
      (paths after ++ zeros count).drop (image.path.length + 1) = paths rest ++ zeros left ∧
        (rest = [] ∨ ∃ old, after = old :: rest) := by
  rcases hleft with hzero | hlength
  · exact ⟨[], _, List.eq_replicate_iff.mpr ⟨rfl, hzero⟩, Or.inl rfl⟩
  · cases after with
    | nil => exact ⟨[], _, List.drop_replicate .., Or.inl rfl⟩
    | cons old rest =>
      have hpacked : paths (old :: rest) ++ zeros count =
          old.path ++ 0 :: (paths rest ++ zeros count) := packed_cons ..
      rw [hpacked, untilNul_append_zero old.zero_notMem] at hlength
      refine ⟨rest, count, ?_, Or.inr ⟨old, rfl⟩⟩
      rw [hpacked, ← hlength, List.drop_append, List.drop_eq_nil_of_le (by omega), List.nil_append,
        Nat.add_sub_cancel_left, List.drop_succ_cons, List.drop_zero]

/-- `file_map` after a path was written between its entries. -/
theorem overwrite_paths (before : List CachedImage) (image : CachedImage) {after rest : List Byte}
    (hrest : after.drop (image.path.length + 1) = rest) :
    overwrite (paths before ++ after) (paths before).length (image.path ++ [0]) =
      paths (before ++ [image]) ++ rest := by
  rw [overwrite_append, paths_append, paths_singleton, List.append_assoc, ← hrest]
  simp

/-- The entries and the slots after an insertion agree when the new entry has number `E`. -/
theorem cachedFile_of_insert {cache cache' : ImageCache} {image : CachedImage}
    {before after rest : List CachedImage} (hstep : insertImage cache image = some cache')
    (he : before.length = cache.e) (hrest : rest = [] ∨ ∃ old, after = old :: rest)
    (hslots : ∀ idx old, (before ++ after)[idx]? = some old →
      cachedFile cache idx = some (old.fd, old.fileSize)) (idx : ℕ) (new : CachedImage)
    (hnew : (before ++ image :: rest)[idx]? = some new) :
    cachedFile cache' idx = some (new.fd, new.fileSize) := by
  rw [cachedFile_insert hstep]
  rcases lt_trichotomy idx before.length with hlt | heq | hgt
  · rw [List.getElem?_append_left hlt] at hnew
    rw [if_neg (by omega), hslots idx new (by rw [List.getElem?_append_left hlt, hnew])]
  · subst heq
    simp only [List.getElem?_append_right le_rfl, Nat.sub_self, List.getElem?_cons_zero,
      Option.some.injEq] at hnew
    rw [if_pos he, hnew]
  · obtain ⟨offset, rfl⟩ : ∃ offset, idx = before.length + (offset + 1) :=
      ⟨idx - before.length - 1, by omega⟩
    rw [List.getElem?_append_right (by omega), Nat.add_sub_cancel_left,
      List.getElem?_cons_succ] at hnew
    rw [if_neg (by omega)]
    rcases hrest with rfl | ⟨old, rfl⟩
    · simp at hnew
    · apply hslots _ new
      rw [List.getElem?_append_right (by omega), Nat.add_sub_cancel_left, List.getElem?_cons_succ,
        hnew]

/-- The entries and the slots agree. -/
def IsAligned (state : CacheRun) : Prop :=
  ∃ before after, Aligned state before after

/-- What is behind `seek_cache` are the older entries and the zeros. -/
theorem Aligned.drop_fileMap {state : CacheRun} {before after : List CachedImage} {count : ℕ}
    (haligned : Aligned state before after)
    (hmap : state.cache.fileMap = paths before ++ (paths after ++ zeros count)) (offset : ℕ) :
    state.cache.fileMap.drop (state.cache.seekCache + offset) =
      (paths after ++ zeros count).drop offset := by
  rw [hmap, haligned.seekCache_eq, List.drop_append, List.drop_eq_nil_of_le (by omega),
    List.nil_append, Nat.add_sub_cancel_left]

/-- The entries after an insertion are the new one and entries from before. -/
theorem Aligned.mem_inserted {state : CacheRun} {before after rest : List CachedImage}
    {image : CachedImage} (haligned : Aligned state before after)
    (hold : rest = [] ∨ ∃ old, after = old :: rest) :
    ∀ new ∈ before ++ image :: rest, new ∈ state.inserted ++ [image] := by
  intro new hmem
  rw [List.mem_append, List.mem_cons] at hmem
  rw [List.mem_append, List.mem_singleton]
  rcases hmem with hbefore | rfl | hafter
  · exact Or.inl (haligned.subset new (List.mem_append_left _ hbefore))
  · exact Or.inr rfl
  · rcases hold with rfl | ⟨old, rfl⟩
    · exact absurd hafter List.not_mem_nil
    · exact Or.inl
        (haligned.subset new (List.mem_append_right _ (List.mem_cons_of_mem _ hafter)))

/-- An insertion that is written in step keeps the rings aligned. -/
theorem isAligned_step (state : CacheRun) (image : CachedImage) (state' : CacheRun)
    (haligned : IsAligned state) (hguard : WrittenInStep state image)
    (hstep : cacheStep state image = some state') : IsAligned state' := by
  obtain ⟨before, after, haligned⟩ := haligned
  obtain ⟨cache, hinsert, rfl⟩ := Option.map_eq_some_iff.mp hstep
  obtain ⟨hnumber, hleft⟩ := hguard
  obtain ⟨count, hmap⟩ := haligned.fileMap_eq
  rw [count_take_seekCache haligned] at hnumber
  -- What the path leaves of the entries behind `seek_cache`.
  have hdrop := haligned.drop_fileMap hmap
  have hbehind := hdrop 0
  rw [Nat.add_zero, List.drop_zero] at hbehind
  rw [Nat.add_assoc, hdrop, hbehind] at hleft
  obtain ⟨rest, left, hrest, hold⟩ := exists_rest hleft
  have hinserted := hinsert
  simp only [insertImage, Option.ite_none_right_eq_some, Option.some.injEq] at hinserted
  obtain ⟨-, hcache⟩ := hinserted
  have hmap' : cache.fileMap = paths (before ++ [image]) ++ (paths rest ++ zeros left) := by
    rw [← hcache]
    show overwrite state.cache.fileMap state.cache.seekCache (image.path ++ [0]) = _
    rw [hmap, haligned.seekCache_eq, overwrite_paths before image hrest]
  have hlength := length_fileMap_insert hinsert haligned.length_eq
  have hsubset := @Aligned.mem_inserted state before after rest image haligned hold
  have hslots := cachedFile_of_insert hinsert hnumber hold haligned.cachedFile_eq
  have hseek : cache.seekCache = (paths (before ++ [image])).length % sizeFileListcache := by
    rw [← hcache, length_paths_concat, ← haligned.seekCache_eq]
  by_cases hfull : (paths (before ++ [image])).length = sizeFileListcache
  · -- `file_map` is full, and `seek_cache` is back at its start.
    refine ⟨[], before ++ [image] ++ rest, ?_⟩
    exact
      { subset := by simpa using hsubset
        fileMap_eq := ⟨left, hmap'.trans (by rw [paths_append _ rest, List.append_assoc]; rfl)⟩
        length_eq := hlength
        seekCache_eq := by rw [hseek, hfull, Nat.mod_self]; rfl
        cachedFile_eq := by simpa using hslots }
  · refine ⟨before ++ [image], rest, ?_⟩
    have hroom : (paths (before ++ [image])).length < sizeFileListcache := by
      have hle := congrArg List.length hmap'
      rw [hlength, List.length_append] at hle
      omega
    exact
      { subset := by simpa using hsubset
        fileMap_eq := ⟨left, hmap'⟩
        length_eq := hlength
        seekCache_eq := by rw [hseek, Nat.mod_eq_of_lt hroom]
        cachedFile_eq := by simpa using hslots }

/-- The empty cache is aligned. -/
theorem isAligned_startRun : IsAligned startRun := by
  refine ⟨[], [], ?_⟩
  exact
    { subset := fun _ hmem ↦ absurd hmem List.not_mem_nil
      fileMap_eq := ⟨sizeFileListcache, rfl⟩
      length_eq := length_zeros _
      seekCache_eq := rfl
      cachedFile_eq := fun _ _ hnone ↦ by simp at hnone }

/-- In every run of insertions that are written in step, every hit hands out the right file. -/
theorem hitsAreRight_of_guarded {images : List CachedImage} {state : CacheRun}
    (hguarded : Guarded cacheStep WrittenInStep startRun images)
    (hrun : run cacheStep startRun images = some state) : HitsAreRight state := by
  obtain ⟨before, after, haligned⟩ :=
    invariant_of_guarded isAligned_step isAligned_startRun hguarded hrun
  exact hitsAreRight_of_aligned haligned

/-! ### Until a ring is full -/

/-- The insertions so far have not gone around in `file_map`, except to its start. -/
structure FirstLap (state : CacheRun) : Prop where
  fileMap_eq : state.cache.fileMap =
    paths state.inserted ++ zeros (sizeFileListcache - (paths state.inserted).length)
  seekCache_eq : state.cache.seekCache = (paths state.inserted).length % sizeFileListcache
  e_eq : (state.cache.e : ℕ) = state.inserted.length % 128

/-- An insertion that fits into `file_map` is made behind the others. -/
theorem firstLap_step {state : CacheRun} {image : CachedImage} (hlap : FirstLap state)
    (hfits : (paths (state.inserted ++ [image])).length ≤ sizeFileListcache) :
    ∃ cache, insertImage state.cache image = some cache ∧
      FirstLap ⟨cache, state.inserted ++ [image]⟩ := by
  have hlength := length_paths_concat state.inserted image
  have hseek : state.cache.seekCache = (paths state.inserted).length := by
    rw [hlap.seekCache_eq, Nat.mod_eq_of_lt (by omega)]
  have hroom : state.cache.seekCache + image.path.length + 1 ≤ sizeFileListcache := by
    rw [hseek, ← hlength]
    exact hfits
  refine ⟨_, if_pos hroom, ?_⟩
  constructor
  · show overwrite state.cache.fileMap state.cache.seekCache (image.path ++ [0]) =
      paths (state.inserted ++ [image]) ++ zeros _
    rw [hlap.fileMap_eq, hseek]
    apply overwrite_paths state.inserted image
    rw [zeros, List.drop_replicate, zeros, hlength, Nat.sub_sub, ← Nat.add_assoc]
  · show (state.cache.seekCache + image.path.length + 1) % sizeFileListcache = _
    rw [hseek, ← hlength]
  · show ((state.cache.e + 1 : Fin 128) : ℕ) = (state.inserted ++ [image]).length % 128
    rw [Fin.val_add, hlap.e_eq, List.length_append, List.length_singleton]
    exact Nat.mod_add_mod ..

/-- As long as `fd_image_cache` has a free slot, the insertion is written in step. -/
theorem writtenInStep_of_firstLap {state : CacheRun} {image : CachedImage} (hlap : FirstLap state)
    (hfits : (paths (state.inserted ++ [image])).length ≤ sizeFileListcache)
    (hcount : state.inserted.length < 128) : WrittenInStep state image := by
  rw [paths_append, paths_singleton, List.length_append, List.length_append,
    List.length_singleton] at hfits
  have hseek : state.cache.seekCache = (paths state.inserted).length := by
    rw [hlap.seekCache_eq, Nat.mod_eq_of_lt (by omega)]
  refine ⟨?_, Or.inl ?_⟩
  · rw [hlap.fileMap_eq, hseek, List.take_left', paths, count_zero_packed zero_notMem_of_mem_map,
      List.length_map, hlap.e_eq, Nat.mod_eq_of_lt hcount]
    rfl
  · intro byte hbyte
    rw [hlap.fileMap_eq, hseek, Nat.add_assoc, List.drop_append, List.drop_eq_nil_of_le (by omega),
      List.nil_append, Nat.add_sub_cancel_left, zeros, List.drop_replicate] at hbyte
    exact List.eq_of_mem_replicate hbyte

/-- Insertions that fit into `file_map` can be made one after another. -/
theorem exists_firstLap {images : List CachedImage}
    (hfits : (paths images).length ≤ sizeFileListcache) :
    ∃ state, run cacheStep startRun images = some state ∧ FirstLap state ∧
      state.inserted = images := by
  induction images using List.reverseRecOn with
  | nil =>
    exact ⟨startRun, rfl, { fileMap_eq := rfl, seekCache_eq := rfl, e_eq := rfl }, rfl⟩
  | append_singleton images image ih =>
    have hfits' : (paths images).length ≤ sizeFileListcache := by
      rw [paths_append, List.length_append] at hfits
      omega
    obtain ⟨state, hrun, hlap, rfl⟩ := ih hfits'
    obtain ⟨cache, hinsert, hlap'⟩ := firstLap_step hlap hfits
    refine ⟨_, ?_, hlap', rfl⟩
    rw [run_append, hrun, Option.bind_some, run_cons, cacheStep, hinsert]
    rfl

/-- Insertions that fit into both rings are written in step. -/
theorem guarded_of_fits {images : List CachedImage}
    (hfits : (paths images).length ≤ sizeFileListcache) (hcount : images.length ≤ 128) :
    Guarded cacheStep WrittenInStep startRun images := by
  induction images using List.reverseRecOn with
  | nil => trivial
  | append_singleton images image ih =>
    rw [List.length_append, List.length_singleton] at hcount
    have hfits' : (paths images).length ≤ sizeFileListcache := by
      rw [paths_append, List.length_append] at hfits
      omega
    apply guarded_concat (ih hfits' (by omega))
    intro final hfinal
    obtain ⟨state, hrun, hlap, hinserted⟩ := exists_firstLap hfits'
    rw [hrun, Option.some.injEq] at hfinal
    subst hfinal hinserted
    exact writtenInStep_of_firstLap hlap hfits (by omega)

/-! ### Photos of many widths -/

/-- The photo in full quality, adapted to a width. -/
def widthPhoto (width : ℕ) : CachedImage where
  path := imageCache ++ bytes "photo1.00000000" ++ numeral width ++ bytes ".jpg"
  zero_notMem := by
    have hnumeral : (0 : Byte) ∉ numeral width :=
      notMem_numeral (Or.inl (by decide)) width
    simp only [List.mem_append, not_or]
    exact ⟨⟨by decide, hnumeral⟩, by decide⟩
  fd := width
  fileSize := 1000

/-- The photo in widths from 100 on. -/
def widthPhotos (count : ℕ) : List CachedImage :=
  (List.range count).map fun i ↦ widthPhoto (100 + i)

theorem widthPhotos_succ (count : ℕ) :
    widthPhotos (count + 1) = widthPhotos count ++ [widthPhoto (100 + count)] := by
  rw [widthPhotos, List.range_succ, List.map_append]
  rfl

/-- Photos of different widths have different paths. -/
theorem widthPhoto_path_inj {width width' : ℕ}
    (heq : (widthPhoto width).path = (widthPhoto width').path) : width = width' := by
  rw [widthPhoto, widthPhoto, List.append_left_inj, List.append_right_inj] at heq
  exact numeral_injective heq

/-- The path of a photo is as long as the digits of its width need. -/
theorem length_widthPhoto (width : ℕ) :
    (widthPhoto width).path.length = 28 + digitCount width := by
  simp only [widthPhoto, List.length_append, length_numeral]
  have himageCache : imageCache.length = 9 := by decide
  have hname : (bytes "photo1.00000000").length = 15 := by decide
  have hext : (bytes ".jpg").length = 4 := by decide
  omega

/-- Up to 512 photos fit into `file_map`. -/
theorem length_paths_widthPhotos {count : ℕ} (hcount : count ≤ 512) :
    (paths (widthPhotos count)).length ≤ sizeFileListcache := by
  have hlength : (paths (widthPhotos count)).length ≤ 32 * count := by
    induction count with
    | zero => exact le_rfl
    | succ count ih =>
      have hphoto := length_widthPhoto (100 + count)
      have hdigits : digitCount (100 + count) ≤ 3 :=
        (Nat.digits_length_le_iff (by norm_num) _).mpr (by omega)
      rw [widthPhotos_succ, paths_append, paths_singleton, List.length_append, List.length_append,
        List.length_singleton]
      have hrest := ih (by omega)
      omega
  rw [sizeFileListcache]
  omega

theorem hitsAreRight_widthPhotos :
    ∃ state, run cacheStep startRun (widthPhotos 128) = some state ∧ HitsAreRight state := by
  have hfits := @length_paths_widthPhotos 128 (by norm_num)
  obtain ⟨state, hrun, -⟩ := exists_firstLap hfits
  have hcount : (widthPhotos 128).length ≤ 128 := by
    rw [widthPhotos, List.length_map, List.length_range]
  exact ⟨state, hrun, hitsAreRight_of_guarded (guarded_of_fits hfits hcount) hrun⟩

/-- The insertion after the 128th gives the first path the file of the last one. -/
theorem not_hitsAreRight :
    ¬ ∀ (images : List CachedImage) (state : CacheRun),
      run cacheStep startRun images = some state → HitsAreRight state := by
  intro hright
  obtain ⟨state, hrun, hlap, hinserted⟩ :=
    exists_firstLap (@length_paths_widthPhotos 128 (by norm_num))
  have hfits := @length_paths_widthPhotos 129 (by norm_num)
  rw [widthPhotos_succ, ← hinserted] at hfits
  obtain ⟨cache, hinsert, hlap'⟩ := firstLap_step hlap hfits
  have he : (state.cache.e : ℕ) = 0 := by
    rw [hlap.e_eq, hinserted, widthPhotos, List.length_map, List.length_range]
  have hrun' : run cacheStep startRun (widthPhotos 129) =
      some ⟨cache, state.inserted ++ [widthPhoto 228]⟩ := by
    rw [widthPhotos_succ, run_append, hrun, Option.bind_some, run_cons, cacheStep, hinsert]
    rfl
  -- The first entry is still the path of the first photo.
  have hfirst : ∃ rest, cache.fileMap = (widthPhoto 100).path ++ 0 :: rest := by
    obtain ⟨others, hothers⟩ : ∃ others, state.inserted = widthPhoto 100 :: others :=
      ⟨_, hinserted⟩
    have hmap : cache.fileMap = paths (state.inserted ++ [widthPhoto 228]) ++ zeros _ :=
      hlap'.fileMap_eq
    rw [hothers, List.cons_append, paths, List.map_cons, packed_cons] at hmap
    exact ⟨_, hmap⟩
  obtain ⟨rest, hmap⟩ := hfirst
  have hentry : entryAt cache.fileMap 0 = some (widthPhoto 100).path := by
    rw [hmap]
    exact cstring_append_zero (widthPhoto 100).zero_notMem rest
  have hfind : findFileInCache (widthPhoto 100).path cache.fileMap = some (.cached 0) := by
    rw [hmap]
    have hlength := length_widthPhoto 100
    have hdigits : digitCount 100 ≤ 3 := (Nat.digits_length_le_iff (by norm_num) _).mpr (by omega)
    refine findFileInCache_first (widthPhoto 100).zero_notMem ?_ (by omega) rest
    exact List.ne_nil_of_length_pos (by omega)
  obtain ⟨image, hmem, hpath, hfile⟩ := hright _ _ hrun' _ 0 hfind hentry
  -- The slot holds the descriptor of the last photo, and only the first one has the path.
  rw [cachedFile_insert hinsert, he, if_pos rfl, Option.some.injEq, Prod.mk.injEq] at hfile
  have hphotos : state.inserted ++ [widthPhoto 228] = widthPhotos 129 := by
    rw [widthPhotos_succ, hinserted]
  rw [hphotos, widthPhotos] at hmem
  obtain ⟨i, -, rfl⟩ := List.mem_map.mp hmem
  have hwidth := widthPhoto_path_inj hpath
  rw [hwidth] at hfile
  exact absurd hfile.1 (by norm_num [widthPhoto])

end ImageApp.Cache
