import ImageApp.Cache.RingAlignment

/-!
# How an insertion becomes visible

An insertion into the image cache is a row of stores under the mutex of the cache: the bytes of the
path with its terminator, `seek_cache`, the descriptor, the size, and `E`. A lookup takes the mutex
nowhere. It scans `file_map`, and reads the size and the descriptor from the slot with the number of
the entry later. Here every store, the scan and the two reads are steps.

The path is visible to a scan before the descriptor and the size are stored. `published_of_guarded`
is about every interleaving in which a lookup reads a field of its slot only when the insertion
under way does not still have to store it: then every lookup gets the file that was inserted with
its path. `not_published` is a lookup between the path and the descriptor.

`run_storeNext` says that the stores of an insertion, made in a row, are the insertion of
`insertImage`.
-/

set_option autoImplicit false
set_option relaxedAutoImplicit false

namespace ImageApp.Cache

open Foundations.CStrings Foundations.GuardedRuns Server

/-! ### Single stores -/

/-- The next store of an insertion; `path` counts the bytes that are stored. -/
inductive Stage
  | path (count : ℕ)
  | seekCache
  | fd
  | fileSize
  | e
  deriving DecidableEq

/-- An insertion under way. -/
structure Writing where
  image : CachedImage
  stage : Stage

/-- The next store. The byte behind the path is its terminator. -/
def storeNext (cache : ImageCache) (writing : Writing) : Option (ImageCache × Option Writing) :=
  let image := writing.image
  match writing.stage with
  | .path count =>
    if cache.seekCache + count < sizeFileListcache then
      (image.path ++ [0])[count]?.map fun byte ↦
        ({ cache with fileMap := cache.fileMap.set (cache.seekCache + count) byte },
          some ⟨image, if count = image.path.length then .seekCache else .path (count + 1)⟩)
    else none
  | .seekCache =>
    some
      ({ cache with
          seekCache := (cache.seekCache + image.path.length + 1) % sizeFileListcache },
        some ⟨image, .fd⟩)
  | .fd =>
    some ({ cache with fd := Function.update cache.fd cache.e image.fd }, some ⟨image, .fileSize⟩)
  | .fileSize =>
    some
      ({ cache with fileSize := Function.update cache.fileSize cache.e image.fileSize },
        some ⟨image, .e⟩)
  | .e => some ({ cache with e := nextE cache.e }, none)

/-- Where a lookup is. -/
inductive Reader
  | outside
  | hit (path : List Byte) (idx : ℕ)
  | sized (path : List Byte) (idx : ℕ) (fileSize : ℤ)

/-- The cache with the insertion under way, the places of the readers, the insertions that have
begun, and the descriptors and sizes that lookups have obtained for their paths. -/
structure Publication (ι : Type*) where
  cache : ImageCache
  writing : Option Writing
  reader : ι → Reader
  begun : List CachedImage
  obtained : List (List Byte × ℤ × ℤ)

/-- A step: an insertion takes the mutex, makes its next store, or gives the mutex back with its
last one; a lookup scans, or reads. -/
inductive CacheAction (ι : Type*)
  | lock (image : CachedImage)
  | store
  | scan (reader : ι) (path : List Byte)
  | readFileSize (reader : ι)
  | readFd (reader : ι)

section Steps

variable {ι : Type*} [DecidableEq ι]

/-- A step of an insertion or of a lookup. -/
def publicationStep (pub : Publication ι) : CacheAction ι → Option (Publication ι)
  | .lock image =>
    match pub.writing with
    | none => some { pub with writing := some ⟨image, .path 0⟩, begun := pub.begun ++ [image] }
    | some _ => none
  | .store =>
    pub.writing.bind fun writing ↦
      (storeNext pub.cache writing).map fun (cache, writing) ↦
        { pub with cache := cache, writing := writing }
  | .scan reader path =>
    match pub.reader reader with
    | .outside =>
      (findFileInCache path pub.cache.fileMap).map fun
        | .notCached => pub
        | .cached idx =>
          { pub with reader := Function.update pub.reader reader (.hit path idx) }
    | _ => none
  | .readFileSize reader =>
    match pub.reader reader with
    | .hit path idx =>
      if hidx : idx < 128 then
        some { pub with
          reader := Function.update pub.reader reader
            (.sized path idx (pub.cache.fileSize ⟨idx, hidx⟩)) }
      else none
    | _ => none
  | .readFd reader =>
    match pub.reader reader with
    | .sized path idx fileSize =>
      if hidx : idx < 128 then
        some { pub with
          reader := Function.update pub.reader reader .outside
          obtained := pub.obtained ++ [(path, pub.cache.fd ⟨idx, hidx⟩, fileSize)] }
      else none
    | _ => none

/-- The start of the program. -/
def startPublication : Publication ι where
  cache := emptyCache
  writing := none
  reader := fun _ ↦ .outside
  begun := []
  obtained := []

/-- Every lookup of an inserted path has obtained the descriptor and the size inserted with it. -/
def Published (pub : Publication ι) : Prop :=
  ∀ path fd fileSize, (path, fd, fileSize) ∈ pub.obtained →
    ∀ image ∈ pub.begun, image.path = path → fd = image.fd ∧ fileSize = image.fileSize

/-- Neither path occurs in the other one. -/
def Apart (first second : CachedImage) : Prop :=
  ¬ first.path <:+: second.path ∧ ¬ second.path <:+: first.path

instance symmApart : Std.Symm Apart where
  symm _ _ hapart := ⟨hapart.2, hapart.1⟩

/-- The insertions fit into both rings, and no path occurs in another one. -/
structure Separate (images : List CachedImage) : Prop where
  length_le : images.length ≤ 128
  fits : (paths images).length ≤ sizeFileListcache
  apart : images.Pairwise Apart

/-- The insertion under way, if there is one, has stored a field, or it is not the one of the slot.
-/
def Settled (cache : ImageCache) (stored : Stage → Bool) (idx : ℕ) : Option Writing → Prop
  | none => True
  | some writing => stored writing.stage = true ∨ idx ≠ cache.e

/-- The descriptor is stored. -/
def fdStored : Stage → Bool
  | .fileSize | .e => true
  | _ => false

/-- The size is stored. -/
def fileSizeStored : Stage → Bool
  | .e => true
  | _ => false

/-- The field that a lookup reads next is not one that the insertion under way still has to store.
-/
def NextSettled (cache : ImageCache) (writing : Option Writing) : Reader → Prop
  | .outside => True
  | .hit _ idx => Settled cache fileSizeStored idx writing
  | .sized _ idx _ => Settled cache fdStored idx writing

/-- No field is read while the insertion under way still has to store it. -/
def StoredBeforeRead (pub : Publication ι) : CacheAction ι → Prop
  | .readFileSize reader | .readFd reader =>
    NextSettled pub.cache pub.writing (pub.reader reader)
  | _ => True

instance decidableSettled (cache : ImageCache) (stored : Stage → Bool) (idx : ℕ)
    (writing : Option Writing) : Decidable (Settled cache stored idx writing) :=
  match writing with
  | none => inferInstanceAs (Decidable True)
  | some _ => inferInstanceAs (Decidable (_ ∨ _))

instance decidableNextSettled (cache : ImageCache) (writing : Option Writing) (reader : Reader) :
    Decidable (NextSettled cache writing reader) :=
  match reader with
  | .outside => inferInstanceAs (Decidable True)
  | .hit _ _ | .sized _ _ _ => inferInstanceAs (Decidable (Settled _ _ _ _))

instance decidableStoredBeforeRead (pub : Publication ι) (action : CacheAction ι) :
    Decidable (StoredBeforeRead pub action) :=
  match action with
  | .readFileSize _ | .readFd _ => inferInstanceAs (Decidable (NextSettled _ _ _))
  | .lock _ | .store | .scan _ _ => inferInstanceAs (Decidable True)

/-! ### An insertion that nobody interrupts -/

/-- A store of one more byte of the data behind those that are stored. -/
theorem set_overwrite_take {region data : List Byte} {offset count : ℕ} {byte : Byte}
    (hbyte : data[count]? = some byte) (hfits : offset + data.length ≤ region.length) :
    (overwrite region offset (data.take count)).set (offset + count) byte =
      overwrite region offset (data.take (count + 1)) := by
  have hcount := (List.getElem?_eq_some_iff.mp hbyte).1
  have htake : (data.take count).length = count := List.length_take_of_le (by omega)
  have htake' : (data.take (count + 1)).length = count + 1 := List.length_take_of_le (by omega)
  have hfront : (region.take offset ++ data.take count).length = offset + count := by
    rw [List.length_append, htake, List.length_take_of_le (by omega)]
  have hbehind : offset + count < region.length := by omega
  rw [overwrite, overwrite, htake, htake', List.drop_eq_getElem_cons hbehind,
    List.set_append_right _ _ hfront.le, hfront, Nat.sub_self, List.set_cons_zero,
    List.take_add_one, hbyte, Option.toList_some, ← Nat.add_assoc]
  simp

/-- The stores of an insertion, made in a row, are the insertion. -/
theorem run_storeNext {pub : Publication ι} {image : CachedImage} {cache : ImageCache}
    (hlength : pub.cache.fileMap.length = sizeFileListcache)
    (hwriting : pub.writing = some ⟨image, .path 0⟩)
    (hinsert : insertImage pub.cache image = some cache) :
    run publicationStep pub (List.replicate (image.path.length + 5) .store) =
      some { pub with cache := cache, writing := none } := by
  simp only [insertImage, Option.ite_none_right_eq_some, Option.some.injEq] at hinsert
  obtain ⟨hroom, rfl⟩ := hinsert
  have hdata : (image.path ++ [0]).length = image.path.length + 1 := by simp
  -- The bytes of the path and its terminator.
  have hbytes : ∀ count ≤ image.path.length + 1,
      run publicationStep pub (List.replicate count .store) = some
        { pub with
          cache := { pub.cache with
            fileMap := overwrite pub.cache.fileMap pub.cache.seekCache
              ((image.path ++ [0]).take count) }
          writing := some
            ⟨image, if count = image.path.length + 1 then .seekCache else .path count⟩ } := by
    intro count hcount
    induction count with
    | zero =>
      have hnothing : overwrite pub.cache.fileMap pub.cache.seekCache [] = pub.cache.fileMap := by
        simp [overwrite]
      rw [List.take_zero, hnothing, if_neg (by omega), ← hwriting]
      rfl
    | succ count ih =>
      obtain ⟨byte, hbyte⟩ : ∃ byte, (image.path ++ [0])[count]? = some byte :=
        ⟨_, List.getElem?_eq_getElem (by omega)⟩
      have hplace : pub.cache.seekCache + count < sizeFileListcache := by omega
      rw [List.replicate_succ', run_append, ih (by omega), Option.bind_some, run_cons,
        publicationStep]
      simp only [if_neg (show ¬ count = image.path.length + 1 by omega), Option.bind_some,
        storeNext, if_pos hplace, hbyte, Option.map_some, run_nil, Nat.add_right_cancel_iff]
      rw [set_overwrite_take hbyte (by omega)]
  rw [show image.path.length + 5 = image.path.length + 1 + 4 by omega, List.replicate_add,
    run_append, hbytes _ le_rfl, ← hdata, List.take_length, hdata, Option.bind_some, if_pos rfl]
  rfl

end Steps

/-! ### What a scan sees -/

/-- The insertions that have begun and are not finished. -/
def underWay : Option Writing → List CachedImage
  | none => []
  | some writing => [writing.image]

/-- The bytes of a path that are stored. -/
def visible : Option Writing → List Byte
  | none => []
  | some ⟨image, .path count⟩ => image.path.take count
  | some ⟨image, _⟩ => image.path

/-- The insertions that `seek_cache` has passed. -/
def passed : Option Writing → List CachedImage
  | none | some ⟨_, .path _⟩ | some ⟨_, .seekCache⟩ => []
  | some ⟨image, _⟩ => [image]

/-- The state of the cache after the insertions in `finished`, in the middle of the next one. -/
structure Written (cache : ImageCache) (writing : Option Writing) (finished : List CachedImage) :
    Prop where
  fileMap_eq : ∃ left, cache.fileMap = paths finished ++ (visible writing ++ zeros left)
  length_eq : cache.fileMap.length = sizeFileListcache
  seekCache_eq : cache.seekCache = (paths (finished ++ passed writing)).length % sizeFileListcache
  e_eq : (cache.e : ℕ) = finished.length % 128
  slots : ∀ (slot : Fin 128) image, finished[(slot : ℕ)]? = some image →
    cache.fd slot = image.fd ∧ cache.fileSize slot = image.fileSize
  stored : ∀ writing' ∈ writing,
    (fdStored writing'.stage = true → cache.fd cache.e = writing'.image.fd) ∧
      (fileSizeStored writing'.stage = true → cache.fileSize cache.e = writing'.image.fileSize)

/-- What is stored of a path is its beginning. -/
theorem visible_spec {writing : Option Writing} {image : CachedImage}
    (himage : underWay writing = [image]) : visible writing <+: image.path := by
  match writing with
  | some ⟨image', stage⟩ =>
    rw [underWay, List.cons.injEq] at himage
    rw [← himage.1]
    cases stage with
    | path count => exact List.take_prefix ..
    | _ => exact List.prefix_refl _

theorem zero_notMem_visible (writing : Option Writing) : (0 : Byte) ∉ visible writing := by
  match writing with
  | none => exact List.not_mem_nil
  | some ⟨image, stage⟩ =>
    intro hzero
    exact image.zero_notMem ((visible_spec rfl).subset hzero)

/-- Behind the finished entries a region has at most one entry that is not empty. -/
theorem entryAt_append_zeros {text other : List Byte} {left idx : ℕ} (htext : (0 : Byte) ∉ text)
    (hne : other ≠ []) (hentry : entryAt (text ++ zeros left) idx = some other) :
    idx = 0 ∧ other = text := by
  cases left with
  | zero =>
    -- Without a NUL no string ends in the region.
    have hnone : cstring (text ++ zeros 0) = none := by
      rw [zeros, List.replicate_zero, List.append_nil, cstring, if_neg htext]
    cases idx with
    | zero => simp [entryAt, hnone] at hentry
    | succ idx => simp [entryAt, hnone] at hentry
  | succ left =>
    have hpacked : text ++ zeros (left + 1) = packed [text] ++ zeros left := by
      simp [packed, zeros, List.replicate_succ]
    rw [hpacked, entryAt_packed_append (by simpa using htext)] at hentry
    split_ifs at hentry with hidx
    · rw [List.length_singleton, Nat.lt_one_iff] at hidx
      subst hidx
      exact ⟨rfl, (Option.some.inj hentry).symm⟩
    · exact absurd (eq_nil_of_entryAt_zeros hentry) hne

/-- A scan that succeeds has found the entry of an insertion that has begun, and the path occurs in
the path of that insertion. -/
theorem hit_of_findFileInCache {cache : ImageCache} {writing : Option Writing}
    {finished : List CachedImage} (hwritten : Written cache writing finished) {path : List Byte}
    {idx : ℕ} (hfind : findFileInCache path cache.fileMap = some (.cached idx)) :
    ∃ image, (finished ++ underWay writing)[idx]? = some image ∧ path <:+: image.path := by
  obtain ⟨text, hentry, hne, hoccurs, -⟩ := findFileInCache_cached hfind
  obtain ⟨left, hmap⟩ := hwritten.fileMap_eq
  rw [hmap, paths, entryAt_packed_append zero_notMem_of_mem_map, List.length_map] at hentry
  split_ifs at hentry with hidx
  · rw [List.getElem?_map, Option.map_eq_some_iff] at hentry
    obtain ⟨image, himage, rfl⟩ := hentry
    exact ⟨image, by rw [List.getElem?_append_left hidx, himage], hoccurs⟩
  · obtain ⟨hzero, rfl⟩ := entryAt_append_zeros (zero_notMem_visible writing) hne hentry
    have hlast : idx = finished.length := by omega
    cases writing with
    | none => exact absurd rfl hne
    | some writing =>
      refine ⟨writing.image, ?_, hoccurs.trans (visible_spec rfl).isInfix⟩
      rw [hlast, List.getElem?_append_right le_rfl, Nat.sub_self]
      rfl

/-! ### What a store keeps -/

/-- A byte written over the first of the zeros behind a text. -/
theorem set_append_zeros (text : List Byte) (left : ℕ) (byte : Byte) :
    (text ++ zeros (left + 1)).set text.length byte = text ++ byte :: zeros left := by
  rw [List.set_append_right _ _ le_rfl, Nat.sub_self, zeros, List.replicate_succ,
    List.set_cons_zero]
  rfl

/-- The next byte of a path, or its terminator, over the first of the zeros behind it. -/
theorem take_append_byte {image : CachedImage} {count left : ℕ} {byte : Byte}
    (hbyte : (image.path ++ [0])[count]? = some byte) :
    ∃ left', image.path.take count ++ byte :: zeros left =
      visible (some ⟨image, if count = image.path.length then .seekCache else .path (count + 1)⟩) ++
        zeros left' := by
  split_ifs with hlast
  · rw [hlast, List.getElem?_append_right le_rfl, Nat.sub_self, List.getElem?_cons_zero,
      Option.some.injEq] at hbyte
    refine ⟨left + 1, ?_⟩
    rw [hlast, List.take_length, ← hbyte]
    rfl
  · have hlt : count < image.path.length := by
      have hbound := (List.getElem?_eq_some_iff.mp hbyte).1
      rw [List.length_append, List.length_singleton] at hbound
      omega
    rw [List.getElem?_append_left hlt] at hbyte
    refine ⟨left, ?_⟩
    rw [visible, List.take_add_one, hbyte, Option.toList_some, List.append_assoc,
      List.singleton_append]

/-- What is stored of the insertion under way is what the cache holds at `E`. -/
theorem stored_some {cache : ImageCache} {writing : Writing}
    (hfd : fdStored writing.stage = true → cache.fd cache.e = writing.image.fd)
    (hfileSize : fileSizeStored writing.stage = true →
      cache.fileSize cache.e = writing.image.fileSize) :
    ∀ writing' ∈ some writing,
      (fdStored writing'.stage = true → cache.fd cache.e = writing'.image.fd) ∧
        (fileSizeStored writing'.stage = true →
          cache.fileSize cache.e = writing'.image.fileSize) := by
  intro writing' hmem
  rw [Option.mem_some_iff] at hmem
  rw [← hmem]
  exact ⟨hfd, hfileSize⟩

section Store

variable {cache : ImageCache} {finished : List CachedImage}

/-- The slot at `E` is not one of the finished insertions. -/
theorem ne_e_of_finished {writing : Option Writing} (hwritten : Written cache writing finished)
    (hcount : finished.length < 128) {slot : Fin 128} {old : CachedImage}
    (hold : finished[(slot : ℕ)]? = some old) : slot ≠ cache.e := by
  intro heq
  have hlt := (List.getElem?_eq_some_iff.mp hold).1
  rw [heq, hwritten.e_eq, Nat.mod_eq_of_lt hcount] at hlt
  exact absurd hlt (lt_irrefl _)

/-- An insertion that fits has a zero behind what is stored of its path. -/
theorem exists_zeros_of_fits {writing : Writing} (hwritten : Written cache (some writing) finished)
    (hfits : (paths (finished ++ [writing.image])).length ≤ sizeFileListcache) :
    ∃ left, cache.fileMap = paths finished ++ (visible (some writing) ++ zeros (left + 1)) := by
  obtain ⟨left, hmap⟩ := hwritten.fileMap_eq
  have hvisible : (visible (some writing)).length ≤ writing.image.path.length :=
    (visible_spec rfl).length_le
  have htotal := congrArg List.length hmap
  rw [hwritten.length_eq, List.length_append, List.length_append, length_zeros] at htotal
  rw [length_paths_concat] at hfits
  exact ⟨left - 1, by rw [Nat.sub_add_cancel (by omega)]; exact hmap⟩

/-- Before `seek_cache` is moved it is where the finished paths end. -/
theorem seekCache_of_passed {writing : Writing} (hwritten : Written cache (some writing) finished)
    (hfits : (paths (finished ++ [writing.image])).length ≤ sizeFileListcache)
    (hpassed : passed (some writing) = []) : cache.seekCache = (paths finished).length := by
  rw [length_paths_concat] at hfits
  rw [hwritten.seekCache_eq, hpassed, List.append_nil, Nat.mod_eq_of_lt (by omega)]

/-- The store of a byte of the path. -/
theorem written_storePath {image : CachedImage} {count : ℕ} {byte : Byte}
    (hwritten : Written cache (some ⟨image, .path count⟩) finished)
    (hfits : (paths (finished ++ [image])).length ≤ sizeFileListcache)
    (hbyte : (image.path ++ [0])[count]? = some byte) :
    Written { cache with fileMap := cache.fileMap.set (cache.seekCache + count) byte }
      (some ⟨image, if count = image.path.length then .seekCache else .path (count + 1)⟩)
      finished := by
  have hbound : count < image.path.length + 1 := by
    simpa using (List.getElem?_eq_some_iff.mp hbyte).1
  have hseek := seekCache_of_passed hwritten hfits rfl
  have htake : (image.path.take count).length = count := List.length_take_of_le (by omega)
  obtain ⟨left, hmap⟩ := exists_zeros_of_fits hwritten hfits
  obtain ⟨left', hvisible⟩ := @take_append_byte image count left byte hbyte
  constructor
  · refine ⟨left', ?_⟩
    have hoffset : (paths finished ++ image.path.take count).length =
        cache.seekCache + count := by
      rw [List.length_append, htake, hseek]
    rw [hmap, visible, ← hvisible, ← List.append_assoc, ← hoffset, set_append_zeros,
      List.append_assoc]
  · rw [List.length_set]
    exact hwritten.length_eq
  · rw [hwritten.seekCache_eq]
    split_ifs
    · rfl
    · rfl
  · exact hwritten.e_eq
  · exact hwritten.slots
  · split_ifs
    · exact stored_some (fun h ↦ by simp [fdStored] at h) fun h ↦ by simp [fileSizeStored] at h
    · exact stored_some (fun h ↦ by simp [fdStored] at h) fun h ↦ by simp [fileSizeStored] at h

/-- The last store, after which the insertion is finished. -/
theorem written_storeE {image : CachedImage}
    (hwritten : Written cache (some ⟨image, .e⟩) finished)
    (hfits : (paths (finished ++ [image])).length ≤ sizeFileListcache)
    (hcount : finished.length < 128) :
    Written { cache with e := nextE cache.e } none (finished ++ [image]) := by
  obtain ⟨left, hmap⟩ := exists_zeros_of_fits hwritten hfits
  obtain ⟨hfd, hfileSize⟩ := hwritten.stored _ rfl
  have he : (cache.e : ℕ) = finished.length := by
    rw [hwritten.e_eq, Nat.mod_eq_of_lt hcount]
  constructor
  · refine ⟨left, ?_⟩
    show cache.fileMap = _
    rw [hmap, visible, paths_append, paths_singleton, zeros, List.replicate_succ]
    simp [visible, zeros]
  · exact hwritten.length_eq
  · show cache.seekCache = _
    rw [hwritten.seekCache_eq]
    simp [passed]
  · show ((cache.e + 1 : Fin 128) : ℕ) = (finished ++ [image]).length % 128
    rw [Fin.val_add, he, List.length_append, List.length_singleton]
    rfl
  · intro slot old hold
    by_cases hlast : (slot : ℕ) < finished.length
    · rw [List.getElem?_append_left hlast] at hold
      exact hwritten.slots slot old hold
    · have hbound := (List.getElem?_eq_some_iff.mp hold).1
      rw [List.length_append, List.length_singleton] at hbound
      have hslot : slot = cache.e := Fin.ext (by omega)
      rw [hslot, he, List.getElem?_append_right le_rfl, Nat.sub_self, List.getElem?_cons_zero,
        Option.some.injEq] at hold
      rw [hslot, ← hold]
      exact ⟨hfd rfl, hfileSize rfl⟩
  · intro writing hmem
    simp at hmem

/-- A store of an insertion that fits behind the finished ones. -/
theorem written_storeNext {cache' : ImageCache} {writing : Writing} {writing' : Option Writing}
    (hwritten : Written cache (some writing) finished)
    (hfits : (paths (finished ++ [writing.image])).length ≤ sizeFileListcache)
    (hcount : finished.length < 128) (hstore : storeNext cache writing = some (cache', writing')) :
    ∃ finished', finished' ++ underWay writing' = finished ++ [writing.image] ∧
      Written cache' writing' finished' := by
  obtain ⟨image, stage⟩ := writing
  cases stage with
  | path count =>
    simp only [storeNext, Option.ite_none_right_eq_some, Option.map_eq_some_iff,
      Prod.mk.injEq] at hstore
    obtain ⟨-, byte, hbyte, rfl, rfl⟩ := hstore
    exact ⟨finished, rfl, written_storePath hwritten hfits hbyte⟩
  | seekCache =>
    simp only [storeNext, Option.some.injEq, Prod.mk.injEq] at hstore
    obtain ⟨rfl, rfl⟩ := hstore
    refine ⟨finished, rfl, { hwritten with seekCache_eq := ?_, stored := ?_ }⟩
    · show (cache.seekCache + image.path.length + 1) % sizeFileListcache =
        (paths (finished ++ [image])).length % sizeFileListcache
      rw [seekCache_of_passed hwritten hfits rfl, length_paths_concat]
    · exact stored_some (fun h ↦ by simp [fdStored] at h) fun h ↦ by simp [fileSizeStored] at h
  | fd =>
    simp only [storeNext, Option.some.injEq, Prod.mk.injEq] at hstore
    obtain ⟨rfl, rfl⟩ := hstore
    refine ⟨finished, rfl, { hwritten with slots := ?_, stored := ?_ }⟩
    · intro slot old hold
      show Function.update cache.fd cache.e image.fd slot = old.fd ∧ _
      rw [Function.update_of_ne (ne_e_of_finished hwritten hcount hold)]
      exact hwritten.slots slot old hold
    · exact stored_some (fun _ ↦ Function.update_self ..) fun h ↦ by simp [fileSizeStored] at h
  | fileSize =>
    simp only [storeNext, Option.some.injEq, Prod.mk.injEq] at hstore
    obtain ⟨rfl, rfl⟩ := hstore
    refine ⟨finished, rfl, { hwritten with slots := ?_, stored := ?_ }⟩
    · intro slot old hold
      show _ ∧ Function.update cache.fileSize cache.e image.fileSize slot = old.fileSize
      rw [Function.update_of_ne (ne_e_of_finished hwritten hcount hold)]
      exact hwritten.slots slot old hold
    · exact stored_some (fun _ ↦ (hwritten.stored _ rfl).1 rfl) fun _ ↦ Function.update_self ..
  | e =>
    simp only [storeNext, Option.some.injEq, Prod.mk.injEq] at hstore
    obtain ⟨rfl, rfl⟩ := hstore
    exact ⟨finished ++ [image], List.append_nil _, written_storeE hwritten hfits hcount⟩

end Store

/-! ### Interleavings -/

/-- What a lookup has found so far belongs to an insertion that has begun. -/
def ReaderRight (begun : List CachedImage) : Reader → Prop
  | .outside => True
  | .hit path idx => ∃ image, begun[idx]? = some image ∧ path <:+: image.path
  | .sized path idx fileSize =>
    ∃ image, begun[idx]? = some image ∧ path <:+: image.path ∧ fileSize = image.fileSize

section Readers

variable {ι : Type*}

/-- The state between two steps. -/
structure Coherent (pub : Publication ι) : Prop where
  written : ∃ finished, pub.begun = finished ++ underWay pub.writing ∧
    Written pub.cache pub.writing finished
  readers : ∀ reader, ReaderRight pub.begun (pub.reader reader)
  obtained : ∀ path fd fileSize, (path, fd, fileSize) ∈ pub.obtained →
    ∃ image ∈ pub.begun, path <:+: image.path ∧ fd = image.fd ∧ fileSize = image.fileSize

/-- What is found of an insertion stays found when others begin. -/
theorem readerRight_append {begun later : List CachedImage} {reader : Reader}
    (hright : ReaderRight begun reader) : ReaderRight (begun ++ later) reader := by
  have hlater : ∀ {idx : ℕ} {image : CachedImage}, begun[idx]? = some image →
      (begun ++ later)[idx]? = some image := by
    intro idx image himage
    rw [List.getElem?_append_left (List.getElem?_eq_some_iff.mp himage).1, himage]
  cases reader with
  | outside => trivial
  | hit path idx =>
    obtain ⟨image, himage, hoccurs⟩ := hright
    exact ⟨image, hlater himage, hoccurs⟩
  | sized path idx fileSize =>
    obtain ⟨image, himage, hoccurs, hsize⟩ := hright
    exact ⟨image, hlater himage, hoccurs, hsize⟩

/-- Insertions that have begun earlier were separate as well. -/
theorem separate_of_append {images later : List CachedImage}
    (hseparate : Separate (images ++ later)) : Separate images where
  length_le := by
    have hall := hseparate.length_le
    rw [List.length_append] at hall
    omega
  fits := by
    have hall := hseparate.fits
    rw [paths_append, List.length_append] at hall
    omega
  apart := (List.pairwise_append.mp hseparate.apart).1

/-- Among separate insertions a path occurs in its own only. -/
theorem eq_of_occurs {images : List CachedImage} (hseparate : Separate images)
    {first second : CachedImage} (hfirst : first ∈ images) (hsecond : second ∈ images)
    (hoccurs : first.path <:+: second.path) : first = second := by
  by_contra hne
  exact (hseparate.apart.forall hfirst hsecond hne).1 hoccurs

/-- What was obtained from separate insertions is what was inserted. -/
theorem published_of_coherent {pub : Publication ι} (hseparate : Separate pub.begun)
    (hcoherent : Coherent pub) : Published pub := by
  intro path fd fileSize hmem image himage hpath
  obtain ⟨source, hsource, hoccurs, hfd, hsize⟩ := hcoherent.obtained path fd fileSize hmem
  rw [← hpath] at hoccurs
  rw [eq_of_occurs hseparate himage hsource hoccurs]
  exact ⟨hfd, hsize⟩

/-- The slot of an insertion that has begun holds its file, unless it is the one under way. -/
theorem slot_cases {pub : Publication ι} {finished : List CachedImage}
    (hcount : pub.begun.length ≤ 128) (hbegun : pub.begun = finished ++ underWay pub.writing)
    (hwritten : Written pub.cache pub.writing finished) {idx : ℕ} (hidx : idx < 128)
    {image : CachedImage} (himage : pub.begun[idx]? = some image) :
    (pub.cache.fd ⟨idx, hidx⟩ = image.fd ∧ pub.cache.fileSize ⟨idx, hidx⟩ = image.fileSize) ∨
      ∃ writing ∈ pub.writing, writing.image = image ∧ pub.cache.e = ⟨idx, hidx⟩ := by
  rw [hbegun] at himage hcount
  by_cases hfinished : idx < finished.length
  · rw [List.getElem?_append_left hfinished] at himage
    exact Or.inl (hwritten.slots ⟨idx, hidx⟩ image himage)
  · rw [List.getElem?_append_right (by omega)] at himage
    match hwriting : pub.writing with
    | none =>
      rw [hwriting] at himage
      simp [underWay] at himage
    | some writing =>
      rw [hwriting, underWay] at himage
      rw [hwriting, underWay, List.length_append, List.length_singleton] at hcount
      have hlast := (List.getElem?_eq_some_iff.mp himage).1
      rw [List.length_singleton] at hlast
      rw [show idx - finished.length = 0 by omega, List.getElem?_cons_zero,
        Option.some.injEq] at himage
      refine Or.inr ⟨writing, rfl, himage, Fin.ext ?_⟩
      rw [hwritten.e_eq, Nat.mod_eq_of_lt (by omega)]
      show finished.length = idx
      omega

end Readers

section Runs

variable {ι : Type*} [DecidableEq ι]

/-- A reader goes on to another place. -/
theorem readerRight_update {begun : List CachedImage} {readers : ι → Reader}
    (hreaders : ∀ reader, ReaderRight begun (readers reader)) {reader : ι} {next : Reader}
    (hnext : ReaderRight begun next) (other : ι) :
    ReaderRight begun (Function.update readers reader next other) := by
  by_cases hother : other = reader
  · rw [hother, Function.update_self]
    exact hnext
  · rw [Function.update_of_ne hother]
    exact hreaders other

/-- A step only adds to the insertions that have begun. -/
theorem begun_of_step {pub pub' : Publication ι} {action : CacheAction ι}
    (hstep : publicationStep pub action = some pub') :
    ∃ later, pub'.begun = pub.begun ++ later := by
  cases action with
  | lock image =>
    simp only [publicationStep] at hstep
    split at hstep
    · rw [Option.some.injEq] at hstep
      rw [← hstep]
      exact ⟨[image], rfl⟩
    · simp at hstep
  | store =>
    obtain ⟨writing, -, hstep⟩ := Option.bind_eq_some_iff.mp hstep
    obtain ⟨⟨cache, writing'⟩, -, rfl⟩ := Option.map_eq_some_iff.mp hstep
    exact ⟨[], (List.append_nil _).symm⟩
  | scan reader path =>
    simp only [publicationStep] at hstep
    split at hstep
    · obtain ⟨found, -, rfl⟩ := Option.map_eq_some_iff.mp hstep
      cases found with
      | notCached => exact ⟨[], (List.append_nil _).symm⟩
      | cached idx => exact ⟨[], (List.append_nil _).symm⟩
    · simp at hstep
  | readFileSize reader =>
    simp only [publicationStep] at hstep
    split at hstep
    · simp only [Option.dite_none_right_eq_some, Option.some.injEq] at hstep
      obtain ⟨-, rfl⟩ := hstep
      exact ⟨[], (List.append_nil _).symm⟩
    · simp at hstep
  | readFd reader =>
    simp only [publicationStep] at hstep
    split at hstep
    · simp only [Option.dite_none_right_eq_some, Option.some.injEq] at hstep
      obtain ⟨-, rfl⟩ := hstep
      exact ⟨[], (List.append_nil _).symm⟩
    · simp at hstep

omit [DecidableEq ι] in
/-- Taking the lock begins an insertion of which nothing is stored. -/
theorem coherent_lock {pub : Publication ι} (hcoherent : Coherent pub)
    (hidle : pub.writing = none) (image : CachedImage) :
    Coherent { pub with
      writing := some ⟨image, .path 0⟩
      begun := pub.begun ++ [image] } := by
  obtain ⟨finished, hbegun, hwritten⟩ := hcoherent.written
  rw [hidle] at hbegun hwritten
  constructor
  · refine ⟨finished, by rw [hbegun]; simp [underWay], { hwritten with stored := ?_ }⟩
    intro writing hmem
    rw [Option.mem_some_iff] at hmem
    rw [← hmem]
    exact ⟨fun h ↦ by simp [fdStored] at h, fun h ↦ by simp [fileSizeStored] at h⟩
  · exact fun reader ↦ readerRight_append (hcoherent.readers reader)
  · intro path fd fileSize hmem
    obtain ⟨source, hsource, hright⟩ := hcoherent.obtained path fd fileSize hmem
    exact ⟨source, List.mem_append_left _ hsource, hright⟩

omit [DecidableEq ι] in
/-- The next store of the insertion under way. -/
theorem coherent_store {pub : Publication ι} (hseparate : Separate pub.begun)
    (hcoherent : Coherent pub) {writing : Writing} (hwriting : pub.writing = some writing)
    {cache : ImageCache} {writing' : Option Writing}
    (hstore : storeNext pub.cache writing = some (cache, writing')) :
    Coherent { pub with cache, writing := writing' } := by
  obtain ⟨finished, hbegun, hwritten⟩ := hcoherent.written
  rw [hwriting] at hbegun hwritten
  have hfits := hseparate.fits
  have hcount := hseparate.length_le
  simp only [hbegun, underWay] at hfits hcount
  rw [List.length_append, List.length_singleton] at hcount
  obtain ⟨finished', hsame, hwritten'⟩ := written_storeNext hwritten hfits (by omega) hstore
  exact { hcoherent with written := ⟨finished', by rw [hsame]; exact hbegun, hwritten'⟩ }

omit [DecidableEq ι] in
/-- A slot whose field is settled holds its file, or the insertion under way has stored the field.
-/
theorem slot_of_settled {pub : Publication ι} {finished : List CachedImage}
    (hcount : pub.begun.length ≤ 128) (hbegun : pub.begun = finished ++ underWay pub.writing)
    (hwritten : Written pub.cache pub.writing finished) {stored : Stage → Bool} {idx : ℕ}
    (hidx : idx < 128) (hsettled : Settled pub.cache stored idx pub.writing)
    {image : CachedImage} (himage : pub.begun[idx]? = some image) :
    (pub.cache.fd ⟨idx, hidx⟩ = image.fd ∧ pub.cache.fileSize ⟨idx, hidx⟩ = image.fileSize) ∨
      ∃ writing ∈ pub.writing, writing.image = image ∧ pub.cache.e = ⟨idx, hidx⟩ ∧
        stored writing.stage = true := by
  rcases slot_cases hcount hbegun hwritten hidx himage with
    hslot | ⟨writing, hwriting, hsame, he⟩
  · exact Or.inl hslot
  · rw [hwriting] at hsettled
    have hstored := hsettled.resolve_right (not_not_intro (by rw [he]))
    exact Or.inr ⟨writing, hwriting, hsame, he, hstored⟩

/-- A size that is read once it is stored is the one of the file that was found. -/
theorem coherent_readFileSize {pub : Publication ι} (hseparate : Separate pub.begun)
    (hcoherent : Coherent pub) {reader : ι} {path : List Byte} {idx : ℕ}
    (hplace : pub.reader reader = .hit path idx) (hidx : idx < 128)
    (hsettled : Settled pub.cache fileSizeStored idx pub.writing) :
    Coherent { pub with
      reader := Function.update pub.reader reader
        (.sized path idx (pub.cache.fileSize ⟨idx, hidx⟩)) } := by
  obtain ⟨finished, hbegun, hwritten⟩ := hcoherent.written
  have hright := hcoherent.readers reader
  rw [hplace] at hright
  obtain ⟨image, himage, hoccurs⟩ := hright
  have hsize : pub.cache.fileSize ⟨idx, hidx⟩ = image.fileSize := by
    rcases slot_of_settled hseparate.length_le hbegun hwritten hidx hsettled himage with
      hslot | ⟨writing, hwriting, rfl, he, hstored⟩
    · exact hslot.2
    · rw [← he]
      exact (hwritten.stored writing hwriting).2 hstored
  exact { hcoherent with
    readers := readerRight_update hcoherent.readers ⟨image, himage, hoccurs, hsize⟩ }

/-- A lookup that reads the descriptor once it is stored has obtained the file that was found. -/
theorem coherent_readFd {pub : Publication ι} (hseparate : Separate pub.begun)
    (hcoherent : Coherent pub) {reader : ι} {path : List Byte} {idx : ℕ}
    {fileSize : ℤ} (hplace : pub.reader reader = .sized path idx fileSize) (hidx : idx < 128)
    (hsettled : Settled pub.cache fdStored idx pub.writing) :
    Coherent { pub with
      reader := Function.update pub.reader reader .outside
      obtained := pub.obtained ++ [(path, pub.cache.fd ⟨idx, hidx⟩, fileSize)] } := by
  obtain ⟨finished, hbegun, hwritten⟩ := hcoherent.written
  have hright := hcoherent.readers reader
  rw [hplace] at hright
  obtain ⟨image, himage, hoccurs, hsize⟩ := hright
  have hfd : pub.cache.fd ⟨idx, hidx⟩ = image.fd := by
    rcases slot_of_settled hseparate.length_le hbegun hwritten hidx hsettled himage with
      hslot | ⟨writing, hwriting, rfl, he, hstored⟩
    · exact hslot.1
    · rw [← he]
      exact (hwritten.stored writing hwriting).1 hstored
  refine { hcoherent with
    readers := readerRight_update hcoherent.readers trivial
    obtained := ?_ }
  intro path' fd' fileSize' hmem
  rcases List.mem_append.mp hmem with hold | hnew
  · exact hcoherent.obtained path' fd' fileSize' hold
  · rw [List.mem_singleton, Prod.mk.injEq, Prod.mk.injEq] at hnew
    obtain ⟨rfl, rfl, rfl⟩ := hnew
    exact ⟨image, List.mem_of_getElem? himage, hoccurs, hfd, hsize⟩

/-- A step that reads no field before it is stored keeps the state coherent. -/
theorem coherent_step {pub pub' : Publication ι} {action : CacheAction ι}
    (hseparate : Separate pub'.begun) (hcoherent : Coherent pub)
    (hguard : StoredBeforeRead pub action) (hstep : publicationStep pub action = some pub') :
    Coherent pub' := by
  cases action with
  | lock image =>
    simp only [publicationStep] at hstep
    split at hstep
    · rename_i hidle
      rw [Option.some.injEq] at hstep
      rw [← hstep]
      exact coherent_lock hcoherent hidle image
    · simp at hstep
  | store =>
    obtain ⟨writing, hwriting, hstep⟩ := Option.bind_eq_some_iff.mp hstep
    obtain ⟨⟨cache, writing'⟩, hstore, rfl⟩ := Option.map_eq_some_iff.mp hstep
    have hsame : Separate pub.begun := hseparate
    exact coherent_store hsame hcoherent hwriting hstore
  | scan reader path =>
    simp only [publicationStep] at hstep
    split at hstep
    · obtain ⟨found, hfind, rfl⟩ := Option.map_eq_some_iff.mp hstep
      cases found with
      | notCached => exact hcoherent
      | cached idx =>
        obtain ⟨finished, hbegun, hwritten⟩ := hcoherent.written
        have hhit := hit_of_findFileInCache hwritten hfind
        rw [← hbegun] at hhit
        exact { hcoherent with readers := readerRight_update hcoherent.readers hhit }
    · simp at hstep
  | readFileSize reader =>
    simp only [publicationStep] at hstep
    split at hstep
    · rename_i path idx hplace
      simp only [Option.dite_none_right_eq_some, Option.some.injEq] at hstep
      obtain ⟨hidx, rfl⟩ := hstep
      rw [StoredBeforeRead, hplace] at hguard
      have hsame : Separate pub.begun := hseparate
      exact coherent_readFileSize hsame hcoherent hplace hidx hguard
    · simp at hstep
  | readFd reader =>
    simp only [publicationStep] at hstep
    split at hstep
    · rename_i path idx fileSize hplace
      simp only [Option.dite_none_right_eq_some, Option.some.injEq] at hstep
      obtain ⟨hidx, rfl⟩ := hstep
      rw [StoredBeforeRead, hplace] at hguard
      have hsame : Separate pub.begun := hseparate
      exact coherent_readFd hsame hcoherent hplace hidx hguard
    · simp at hstep

omit [DecidableEq ι] in
/-- The start is coherent. -/
theorem coherent_start : Coherent (startPublication : Publication ι) where
  written :=
    ⟨[], rfl,
      { fileMap_eq := ⟨sizeFileListcache, rfl⟩
        length_eq := length_zeros _
        seekCache_eq := rfl
        e_eq := rfl
        slots := fun _ _ hnone ↦ by simp at hnone
        stored := fun _ hmem ↦ by simp [startPublication] at hmem }⟩
  readers := fun _ ↦ trivial
  obtained := fun _ _ _ hmem ↦ absurd hmem List.not_mem_nil

/-- In every interleaving of lookups with separate insertions in which no field is read while the
insertion under way still has to store it, every lookup gets the file inserted with its path. -/
theorem published_of_guarded {actions : List (CacheAction ι)} {pub : Publication ι}
    (hguarded : Guarded publicationStep StoredBeforeRead startPublication actions)
    (hrun : run publicationStep startPublication actions = some pub)
    (hseparate : Separate pub.begun) : Published pub := by
  have hstep : ∀ (pub : Publication ι) (action : CacheAction ι) (pub' : Publication ι),
      (Separate pub.begun → Coherent pub) → StoredBeforeRead pub action →
        publicationStep pub action = some pub' → Separate pub'.begun → Coherent pub' := by
    intro pub action pub' hcoherent hguard hstep hseparate
    obtain ⟨later, hlater⟩ := begun_of_step hstep
    refine coherent_step hseparate (hcoherent ?_) hguard hstep
    rw [hlater] at hseparate
    exact separate_of_append hseparate
  have hcoherent := @invariant_of_guarded _ _ publicationStep StoredBeforeRead
    (fun pub : Publication ι ↦ Separate pub.begun → Coherent pub) hstep _ _ _
    (fun _ ↦ coherent_start) hguarded hrun
  exact published_of_coherent hseparate (hcoherent hseparate)

/-! ### Two photos -/

/-- What is inserted, for comparison. -/
def entries (images : List CachedImage) : List (List Byte × ℤ × ℤ) :=
  images.map fun image ↦ (image.path, image.fd, image.fileSize)

/-- Whether insertions are separate is a matter of what is inserted. -/
theorem separate_of_entries_eq {images photos : List CachedImage}
    (hentries : entries images = entries photos) (hseparate : Separate photos) :
    Separate images := by
  have hpaths : images.map CachedImage.path = photos.map CachedImage.path := by
    have hfirst := congrArg (List.map Prod.fst) hentries
    rwa [entries, entries, List.map_map, List.map_map] at hfirst
  have hapart : ∀ images : List CachedImage, images.Pairwise Apart ↔
      (images.map CachedImage.path).Pairwise
        fun first second ↦ ¬ first <:+: second ∧ ¬ second <:+: first := by
    intro images
    rw [List.pairwise_map]
    rfl
  constructor
  · have hlength := congrArg List.length hpaths
    rw [List.length_map, List.length_map] at hlength
    rw [hlength]
    exact hseparate.length_le
  · rw [paths, hpaths]
    exact hseparate.fits
  · rw [hapart, hpaths, ← hapart]
    exact hseparate.apart

theorem separate_widthPhotos : Separate [widthPhoto 100, widthPhoto 200] where
  length_le := by decide
  fits := by decide +kernel
  apart := List.pairwise_pair.mpr ⟨by decide +kernel, by decide +kernel⟩

/-- The insertions that have begun, and what was obtained. -/
def record (pub : Publication ι) : List (List Byte × ℤ × ℤ) × List (List Byte × ℤ × ℤ) :=
  (entries pub.begun, pub.obtained)

/-- A lookup of the first photo goes on while the path of the second one is stored, byte by byte.
The second one is found as soon as its path is there, and read after its insertion. -/
def lookupsDuringInsertion : List (CacheAction Bool) :=
  .lock (widthPhoto 100) :: (List.replicate 36 .store ++ .lock (widthPhoto 200) ::
    (List.replicate 10 .store ++ .scan false (widthPhoto 100).path ::
      (List.replicate 21 .store ++ [.scan true (widthPhoto 200).path, .readFileSize false, .store,
        .store, .readFd false, .store, .store, .store, .readFileSize true, .readFd true])))

/-- An insertion, in the middle of which the photo is looked up: its path is stored. -/
def lookupBetween : List (CacheAction Unit) :=
  .lock (widthPhoto 100) :: (List.replicate 31 .store ++
    [.scan () (widthPhoto 100).path, .readFileSize (), .readFd ()])

theorem published_photo :
    ∃ pub, run publicationStep startPublication lookupsDuringInsertion = some pub ∧
      pub.obtained = [((widthPhoto 100).path, 100, 1000), ((widthPhoto 200).path, 200, 1000)] ∧
      Published pub := by
  have hrecord : (run publicationStep startPublication lookupsDuringInsertion).map record =
      some (entries [widthPhoto 100, widthPhoto 200],
        [((widthPhoto 100).path, 100, 1000), ((widthPhoto 200).path, 200, 1000)]) := by
    decide +kernel
  obtain ⟨pub, hrun, hrecord⟩ := Option.map_eq_some_iff.mp hrecord
  rw [record, Prod.mk.injEq] at hrecord
  exact ⟨pub, hrun, hrecord.2, published_of_guarded (by decide +kernel) hrun
    (separate_of_entries_eq hrecord.1 separate_widthPhotos)⟩

/-- The lookup in the middle finds the path, and reads zeros. -/
theorem not_published :
    ¬ ∀ (actions : List (CacheAction Unit)) (pub : Publication Unit),
      run publicationStep startPublication actions = some pub → Separate pub.begun →
        Published pub := by
  intro hpublished
  have hrecord : (run publicationStep startPublication lookupBetween).map record =
      some (entries [widthPhoto 100], [((widthPhoto 100).path, 0, 0)]) := by decide +kernel
  obtain ⟨pub, hrun, hrecord⟩ := Option.map_eq_some_iff.mp hrecord
  rw [record, Prod.mk.injEq] at hrecord
  obtain ⟨hbegun, hobtained⟩ := hrecord
  have hphoto : Separate [widthPhoto 100] :=
    @separate_of_append [widthPhoto 100] [widthPhoto 200] separate_widthPhotos
  obtain ⟨image, himages, himage⟩ := List.map_eq_singleton_iff.mp hbegun
  rw [Prod.mk.injEq, Prod.mk.injEq] at himage
  have hfile := hpublished _ pub hrun (separate_of_entries_eq hbegun hphoto) _ _ _
    (hobtained ▸ List.mem_cons_self) image (himages ▸ List.mem_cons_self) himage.1
  rw [himage.2.1] at hfile
  exact absurd hfile.1 (by norm_num [widthPhoto])

end Runs

end ImageApp.Cache
