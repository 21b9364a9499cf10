import ImageApp.Cache.RingAlignment

/-!
# The bounds of the cache tables

In every run of insertions and searches `file_map` holds short strings one after another up to its
end, and `seek_cache` stands behind one of them (`isPacked_step`). So a search never leaves the map
or its buffer. What can leave the tables is an insertion that does not fit between `seek_cache` and
the end of the map, since `seek_cache` is taken modulo the size only behind the write, and the index
of a hit, since the map has room for many more than 128 strings. `guarded_inRange_iff` is the exact
condition on a run.
-/

set_option autoImplicit false
set_option relaxedAutoImplicit false

namespace ImageApp.Cache

open Foundations.CStrings Foundations.DecimalRows Foundations.GuardedRuns Server

/-! ### Runs of insertions and searches -/

/-- An insertion of an image whose path has at most 127 bytes, or a search for a path. -/
inductive TableAction
  | insert (image : CachedImage) (hshort : image.path.length ≤ 127)
  | lookup (path : List Byte)

/-- A step of the cache. A search changes nothing. -/
def tableStep (state : CacheRun) : TableAction → Option CacheRun
  | .insert image _ => cacheStep state image
  | .lookup _ => some state

/-- An insertion writes inside `file_map`. A search finds its strings inside `file_map` and inside
its buffer, and the index of a hit is one of `fd_image_cache`. -/
def InRange (state : CacheRun) : TableAction → Prop
  | .insert image _ => (insertImage state.cache image).isSome
  | .lookup path => ∃ result, findFileInCache path state.cache.fileMap = some result ∧
    ∀ idx, result = .cached idx → idx < 128

/-- A path that is inserted fits behind the earlier ones, whose lengths count modulo the size of
`file_map`. A path that is looked up is in one of the first 128 strings or in none, unless the first
string is empty, when nothing is looked up. -/
def FitsTables (state : CacheRun) : TableAction → Prop
  | .insert image _ =>
    (paths state.inserted).length % sizeFileListcache + image.path.length + 1 ≤ sizeFileListcache
  | .lookup path =>
    entryAt state.cache.fileMap 0 = some [] ∨
      (∃ idx < 128, ∃ text, entryAt state.cache.fileMap idx = some text ∧ path <:+: text) ∨
      ∀ idx text, entryAt state.cache.fileMap idx = some text → ¬ path <:+: text

/-! ### The strings of the map -/

/-- Strings that fit into the buffer of a search. -/
def Short (texts : List (List Byte)) : Prop :=
  ∀ text ∈ texts, (0 : Byte) ∉ text ∧ text.length < 128

/-- `file_map` consists of the short strings in `before` and `after`, and `seek_cache` is between
them and has advanced by the lengths of all insertions. -/
structure Packed (state : CacheRun) (before after : List (List Byte)) : Prop where
  short : Short (before ++ after)
  fileMap_eq : state.cache.fileMap = packed (before ++ after)
  length_eq : state.cache.fileMap.length = sizeFileListcache
  seekCache_eq : state.cache.seekCache = (packed before).length
  seekCache_mod : state.cache.seekCache = (paths state.inserted).length % sizeFileListcache

/-- `file_map` consists of short strings. -/
def IsPacked (state : CacheRun) : Prop :=
  ∃ before after, Packed state before after

theorem short_replicate_nil (count : ℕ) : Short (List.replicate count []) := by
  intro text htext
  rw [List.eq_of_mem_replicate htext]
  exact ⟨List.not_mem_nil, by decide⟩

theorem isPacked_startRun : IsPacked startRun := by
  refine ⟨[], List.replicate sizeFileListcache [], ?_⟩
  exact
    { short := short_replicate_nil _
      fileMap_eq := (packed_replicate_nil _).symm
      length_eq := length_zeros _
      seekCache_eq := rfl
      seekCache_mod := rfl }

/-- Short strings stay short when a short path takes the place of some of them and cuts off others.
-/
theorem short_insert {before after left : List (List Byte)} (hshort : Short (before ++ after))
    (hends : ∀ text ∈ left, ∃ whole ∈ after, text <:+ whole) {image : CachedImage}
    (himage : image.path.length ≤ 127) : Short (before ++ image.path :: left) := by
  intro text htext
  rw [List.mem_append, List.mem_cons] at htext
  rcases htext with hbefore | rfl | hafter
  · exact hshort text (List.mem_append_left _ hbefore)
  · exact ⟨image.zero_notMem, Nat.lt_succ_of_le himage⟩
  · obtain ⟨whole, hwhole, hend⟩ := hends text hafter
    obtain ⟨hzero, hless⟩ := hshort whole (List.mem_append_right _ hwhole)
    exact ⟨fun hmem ↦ hzero (hend.mem hmem), hend.length_le.trans_lt hless⟩

/-- An insertion puts its path between the strings, and cuts off the start of the one behind it. -/
theorem isPacked_insert {state next : CacheRun} {image : CachedImage}
    (hshort : image.path.length ≤ 127) (hpacked : IsPacked state)
    (hstep : cacheStep state image = some next) : IsPacked next := by
  obtain ⟨before, after, hpacked⟩ := hpacked
  obtain ⟨cache, hinsert, rfl⟩ := Option.map_eq_some_iff.mp hstep
  have hlength := length_fileMap_insert hinsert hpacked.length_eq
  simp only [insertImage, Option.ite_none_right_eq_some, Option.some.injEq] at hinsert
  obtain ⟨-, hcache⟩ := hinsert
  obtain ⟨left, hleft, hends⟩ := exists_packed_drop after (image.path.length + 1)
  have hsplit : packed (before ++ image.path :: left) =
      packed before ++ (image.path ++ [0]) ++ packed left := by
    rw [packed_append, packed_eq_cons, List.append_assoc, List.append_assoc]
    rfl
  have hmap : cache.fileMap = packed (before ++ image.path :: left) := by
    rw [← hcache]
    show overwrite state.cache.fileMap state.cache.seekCache (image.path ++ [0]) = _
    rw [hpacked.fileMap_eq, hpacked.seekCache_eq, packed_append, overwrite_append,
      List.length_append, List.length_singleton, hleft, hsplit]
  have hall := short_insert hpacked.short hends hshort
  have hseek : cache.seekCache = (packed (before ++ [image.path])).length % sizeFileListcache := by
    rw [← hcache, packed_append, packed_singleton, List.length_append, List.length_append,
      List.length_singleton, ← Nat.add_assoc, ← hpacked.seekCache_eq]
  have hmod : cache.seekCache =
      (paths (state.inserted ++ [image])).length % sizeFileListcache := by
    rw [hseek, packed_append, packed_singleton, List.length_append, List.length_append,
      List.length_singleton, ← hpacked.seekCache_eq, hpacked.seekCache_mod, length_paths_concat,
      Nat.add_assoc, Nat.mod_add_mod]
  by_cases hfull : (packed (before ++ [image.path])).length = sizeFileListcache
  · -- the path ends with the map, and `seek_cache` is back at its start
    refine ⟨[], before ++ image.path :: left, ?_⟩
    exact
      { short := hall
        fileMap_eq := hmap
        length_eq := hlength
        seekCache_eq := by rw [hseek, hfull, Nat.mod_self]; rfl
        seekCache_mod := hmod }
  · refine ⟨before ++ [image.path], left, ?_⟩
    have hroom : (packed (before ++ [image.path])).length < sizeFileListcache := by
      have hle := congrArg List.length (hmap.trans hsplit)
      rw [hlength, List.length_append, ← packed_singleton, ← packed_append] at hle
      omega
    exact
      { short := by simpa using hall
        fileMap_eq := by simpa using hmap
        length_eq := hlength
        seekCache_eq := by rw [hseek, Nat.mod_eq_of_lt hroom]
        seekCache_mod := hmod }

theorem isPacked_step (state : CacheRun) (action : TableAction) (next : CacheRun)
    (hpacked : IsPacked state) (hstep : tableStep state action = some next) : IsPacked next := by
  cases action with
  | insert image hshort => exact isPacked_insert hshort hpacked hstep
  | lookup path =>
    cases hstep
    exact hpacked

/-! ### Searches -/

/-- The path occurs in the string. -/
def occurs (path text : List Byte) : Bool :=
  (strstr text path).isSome

/-- The loop of a search over short strings that end with the map: it stops at the first string in
which the path occurs. -/
theorem scanEntries_packed {path map : List Byte} {texts : List (List Byte)} (hshort : Short texts)
    {len : ℕ} (i : ℕ) (hdrop : map.drop len = packed texts)
    (hlength : len + (packed texts).length = sizeFileListcache) :
    scanEntries path map len i =
      some ((texts.findIdx? (occurs path)).elim .notCached fun j ↦ .cached (i + j)) := by
  induction texts generalizing len i with
  | nil =>
    have hend : ¬ len < sizeFileListcache := by
      rw [← hlength]
      simp [packed]
    rw [scanEntries, if_neg hend]
    rfl
  | cons text texts ih =>
    obtain ⟨hzero, hless⟩ := hshort text List.mem_cons_self
    have hpacked := packed_eq_cons text texts
    rw [hpacked] at hdrop hlength
    rw [List.length_append, List.length_cons] at hlength
    have hinside : len < sizeFileListcache := by omega
    have hbehind : map.drop (len + (text.length + 1)) = packed texts := by
      rw [← List.drop_drop, hdrop, List.drop_append, List.drop_eq_nil_of_le (by omega),
        List.nil_append, Nat.add_sub_cancel_left, List.drop_succ_cons, List.drop_zero]
    have hrest := ih (fun other hother ↦ hshort other (List.mem_cons_of_mem _ hother)) (i + 1)
      hbehind (by omega)
    rw [scanEntries, if_pos hinside, hdrop, cstring_append_zero hzero]
    simp only [if_pos hless, hrest, List.findIdx?_cons, occurs]
    by_cases hfound : (strstr text path).isSome
    · simp [hfound]
    · cases texts.findIdx? (occurs path) with
      | none => simp [hfound]
      | some j => simp [hfound, Nat.add_assoc, Nat.add_comm 1]

/-- A search over short strings. -/
theorem findFileInCache_packed {path text : List Byte} {texts : List (List Byte)}
    (hshort : Short (text :: texts))
    (hlength : (packed (text :: texts)).length = sizeFileListcache) :
    findFileInCache path (packed (text :: texts)) =
      if text = [] then some .notCached
      else some (((text :: texts).findIdx? (occurs path)).elim .notCached .cached) := by
  have hread : cstring (packed (text :: texts)) = some text := by
    rw [← List.append_nil (packed (text :: texts)), packed_cons]
    exact cstring_append_zero (hshort text List.mem_cons_self).1 _
  have hscan := @scanEntries_packed path (packed (text :: texts)) _ hshort 0 0 rfl
    (by rw [Nat.zero_add, hlength])
  simp only [Nat.zero_add] at hscan
  rw [findFileInCache, hread]
  cases text with
  | nil => rfl
  | cons byte text => exact hscan

/-- A search is in range if and only if its path is in one of the first 128 strings or in none, or
nothing is looked up. -/
theorem inRange_lookup_iff {state : CacheRun} {before after : List (List Byte)}
    (hpacked : Packed state before after) (path : List Byte) :
    InRange state (.lookup path) ↔ FitsTables state (.lookup path) := by
  have hshort := hpacked.short
  have hmap := hpacked.fileMap_eq
  have hlength := hpacked.length_eq
  generalize before ++ after = texts at hshort hmap
  rw [hmap] at hlength
  cases texts with
  | nil => exact absurd hlength (by decide)
  | cons text texts =>
    have hentry := entryAt_packed fun other hother ↦ (hshort other hother).1
    simp only [InRange, FitsTables, hmap, hentry, findFileInCache_packed hshort hlength]
    by_cases hempty : text = []
    · rw [if_pos hempty, hempty]
      exact iff_of_true ⟨_, rfl, nofun⟩ (Or.inl rfl)
    · rw [if_neg hempty]
      cases hfind : (text :: texts).findIdx? (occurs path) with
      | none =>
        rw [List.findIdx?_eq_none_iff] at hfind
        refine iff_of_true ⟨_, rfl, nofun⟩ (Or.inr (Or.inr fun idx other hother hoccurs ↦ ?_))
        have hmissed := hfind other (List.mem_of_getElem? hother)
        rw [occurs, (isSome_strstr other path).mpr hoccurs] at hmissed
        exact Bool.false_ne_true hmissed.symm
      | some first =>
        obtain ⟨hfirst, hfound, hbefore⟩ := List.findIdx?_eq_some_iff_getElem.mp hfind
        have hread := List.getElem?_eq_getElem hfirst
        have hoccurs := (isSome_strstr _ path).mp hfound
        constructor
        · rintro ⟨result, hresult, hbound⟩
          exact Or.inr (Or.inl ⟨first, hbound first (Option.some_inj.mp hresult).symm, _, hread,
            hoccurs⟩)
        · intro hfits
          refine ⟨_, rfl, fun idx hidx ↦ ?_⟩
          rw [← Lookup.cached.inj hidx]
          rcases hfits with hnil | ⟨early, hearly, text', htext', hoccurs'⟩ | hnowhere
          · exact absurd (Option.some_inj.mp hnil) hempty
          · -- the search stops no later than at a string in which the path is
            by_contra hlate
            obtain ⟨hinside, rfl⟩ := List.getElem?_eq_some_iff.mp htext'
            exact hbefore early (by omega) ((isSome_strstr _ path).mpr hoccurs')
          · exact absurd hoccurs (hnowhere first _ hread)

/-- An insertion is in range if and only if its path fits behind `seek_cache`. -/
theorem inRange_insert_iff {state : CacheRun} {before after : List (List Byte)}
    (hpacked : Packed state before after) {image : CachedImage} (hshort : image.path.length ≤ 127) :
    InRange state (.insert image hshort) ↔ FitsTables state (.insert image hshort) := by
  simp only [InRange, FitsTables, insertImage, ← hpacked.seekCache_mod]
  split_ifs with hfits
  · exact iff_of_true rfl hfits
  · exact iff_of_false Bool.false_ne_true hfits

/-- In a run all accesses of the tables are in range if and only if each insertion and each search
fits them. -/
theorem guarded_inRange_iff (actions : List TableAction) :
    Guarded tableStep InRange startRun actions ↔
      Guarded tableStep FitsTables startRun actions := by
  refine guarded_iff_of_invariant isPacked_step (fun state action hpacked ↦ ?_)
    isPacked_startRun actions
  obtain ⟨before, after, hpacked⟩ := hpacked
  cases action with
  | insert image hshort => exact inRange_insert_iff hpacked hshort
  | lookup path => exact inRange_lookup_iff hpacked path

/-! ### Small runs -/

/-- The images that are inserted. -/
def insertions : List TableAction → List CachedImage
  | [] => []
  | .insert image _ :: rest => image :: insertions rest
  | .lookup _ :: rest => insertions rest

/-- The strings of a map on its first lap are the paths and empty ones. -/
theorem entryAt_of_firstLap {state : CacheRun} (hlap : FirstLap state) {idx : ℕ} {text : List Byte}
    (hentry : entryAt state.cache.fileMap idx = some text) :
    (∃ image, state.inserted[idx]? = some image ∧ image.path = text) ∨ text = [] := by
  rw [hlap.fileMap_eq, paths, entryAt_packed_append zero_notMem_of_mem_map] at hentry
  split_ifs at hentry with hidx
  · rw [List.getElem?_map] at hentry
    exact Or.inl (Option.map_eq_some_iff.mp hentry)
  · exact Or.inr (eq_nil_of_entryAt_zeros hentry)

/-- Insertions of up to 128 paths that fit into `file_map`, and searches for paths that are not
empty, fit the tables. -/
theorem guarded_fitsTables {state : CacheRun} {actions : List TableAction} (hlap : FirstLap state)
    (hfits : (paths (state.inserted ++ insertions actions)).length ≤ sizeFileListcache)
    (hcount : (state.inserted ++ insertions actions).length ≤ 128)
    (hsome : ∀ path, .lookup path ∈ actions → path ≠ []) :
    Guarded tableStep FitsTables state actions := by
  induction actions generalizing state with
  | nil => trivial
  | cons action rest ih =>
    have hsome' : ∀ path, .lookup path ∈ rest → path ≠ [] := fun path hmem ↦
      hsome path (List.mem_cons_of_mem _ hmem)
    cases action with
    | insert image hshort =>
      rw [insertions, ← List.singleton_append, ← List.append_assoc] at hfits hcount
      have hone : (paths (state.inserted ++ [image])).length ≤ sizeFileListcache := by
        rw [paths_append, List.length_append] at hfits
        omega
      obtain ⟨cache, hinsert, hlap'⟩ := firstLap_step hlap hone
      refine guarded_cons.mpr ⟨?_, fun next hnext ↦ ?_⟩
      · rw [length_paths_concat] at hone
        rw [FitsTables, Nat.mod_eq_of_lt (by omega)]
        omega
      · rw [tableStep, cacheStep, hinsert] at hnext
        cases hnext
        exact ih hlap' hfits hcount hsome'
    | lookup path =>
      refine guarded_cons.mpr ⟨?_, fun next hnext ↦ ?_⟩
      · -- a path that is not empty can only be in one of the paths that were inserted
        by_cases hfound : ∃ idx text, entryAt state.cache.fileMap idx = some text ∧ path <:+: text
        · obtain ⟨idx, text, hentry, hoccurs⟩ := hfound
          refine Or.inr (Or.inl ⟨idx, ?_, text, hentry, hoccurs⟩)
          rcases entryAt_of_firstLap hlap hentry with ⟨image, himage, -⟩ | rfl
          · obtain ⟨hinside, -⟩ := List.getElem?_eq_some_iff.mp himage
            rw [List.length_append] at hcount
            omega
          · exact absurd (List.eq_nil_of_infix_nil hoccurs) (hsome path List.mem_cons_self)
        · refine Or.inr (Or.inr fun idx text hentry hoccurs ↦ hfound ?_)
          exact ⟨idx, text, hentry, hoccurs⟩
      · cases hnext
        exact ih hlap hfits hcount hsome'

/-! ### One photo too many -/

theorem run_pmap_insert {images : List CachedImage}
    (hshort : ∀ image ∈ images, image.path.length ≤ 127) (state : CacheRun) :
    run tableStep state (images.pmap .insert hshort) = run cacheStep state images := by
  induction images generalizing state with
  | nil => rfl
  | cons image images ih =>
    rw [List.pmap, run_cons, run_cons]
    exact Option.bind_congr fun next _ ↦
      ih (fun other hother ↦ hshort other (List.mem_cons_of_mem _ hother)) next

/-- The path of a photo of a width from 100 to 999 has 31 bytes. -/
theorem length_path_widthPhoto {width : ℕ} (hleast : 100 ≤ width) (hmost : width < 1000) :
    (widthPhoto width).path.length = 31 := by
  have hdigits : digitCount width = 3 := by
    refine le_antisymm ((Nat.digits_length_le_iff (by norm_num) _).mpr (by omega)) ?_
    exact (Nat.lt_digits_length_iff (by norm_num) _).mpr (by omega)
  rw [length_widthPhoto, hdigits]

theorem length_path_of_mem_widthPhotos {image : CachedImage} (hmem : image ∈ widthPhotos 129) :
    image.path.length ≤ 127 := by
  obtain ⟨i, hi, rfl⟩ := List.mem_map.mp hmem
  rw [List.mem_range] at hi
  rw [length_path_widthPhoto (by omega) (by omega)]
  decide

/-- 129 photos are inserted, and then the last one is looked up. -/
def photoActions : List TableAction :=
  (widthPhotos 129).pmap .insert (fun _ ↦ length_path_of_mem_widthPhotos) ++
    [.lookup (widthPhoto 228).path]

/-- The search finds the last photo as number 128. -/
theorem not_inRange :
    ¬ ∀ actions : List TableAction, Guarded tableStep InRange startRun actions := by
  intro hall
  have hguarded := hall photoActions
  obtain ⟨state, hrun, hlap, hinserted⟩ :=
    exists_firstLap (@length_paths_widthPhotos 129 (by norm_num))
  rw [← run_pmap_insert (fun _ ↦ length_path_of_mem_widthPhotos)] at hrun
  have hrange := guard_of_guarded hguarded hrun
  obtain ⟨before, after, hpacked⟩ := invariant_of_run isPacked_step isPacked_startRun hrun
  have hentry : ∀ idx < 129,
      entryAt state.cache.fileMap idx = some (widthPhoto (100 + idx)).path := by
    intro idx hidx
    have hlength : ((widthPhotos 129).map CachedImage.path).length = 129 := by
      rw [List.length_map, widthPhotos, List.length_map, List.length_range]
    rw [hlap.fileMap_eq, hinserted, paths, entryAt_packed_append zero_notMem_of_mem_map,
      if_pos (by rwa [hlength]), List.getElem?_map, widthPhotos, List.getElem?_map,
      List.getElem?_range hidx]
    rfl
  rcases (inRange_lookup_iff hpacked _).mp hrange with
    hempty | ⟨idx, hidx, text, htext, hoccurs⟩ | hnowhere
  · rw [hentry 0 (by norm_num), Option.some_inj] at hempty
    have hlength := @length_path_widthPhoto 100 (by norm_num) (by norm_num)
    rw [hempty] at hlength
    exact absurd hlength (by decide)
  · rw [hentry idx (by omega), Option.some_inj] at htext
    rw [← htext] at hoccurs
    have hsame := hoccurs.eq_of_length (by
      rw [length_path_widthPhoto (by norm_num) (by norm_num),
        length_path_widthPhoto (by omega) (by omega)])
    have hwidth := widthPhoto_path_inj hsame
    omega
  · exact hnowhere 128 _ (hentry 128 (by norm_num)) List.infix_rfl

end ImageApp.Cache
