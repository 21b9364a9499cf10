import ImageApp.Cache.FileNames
import ImageApp.Cache.MissingImage
import ImageApp.Cache.TableBounds
import Mathlib.Algebra.BigOperators.Group.Finset.Basic
import Mathlib.Algebra.Order.BigOperators.Group.Finset

/-!
# What the cache of images is for

A request for an image looks for its cache path, and is answered from an open descriptor, or the
image is read, adapted, written to the cache directory and put into the cache. A server without a
cache would adapt the image every time: `adaptedContent` is what it sends.

`answersRight_of_run` is about every sequence of requests that do not go around in the two rings and
whose paths name each file once and occur in each other only when the same content is wanted: no
request is answered from memory outside the cache, and every request is answered as a server without
a cache answers it. `Filled` describes the two rings until one of them is full, and `Serving` what
the entries stand for: open files in which the content is. `oneContent_of_run` says that the files
of such requests stay those of a machine in which paths that lead to one file have one content.
-/

set_option autoImplicit false
set_option relaxedAutoImplicit false

namespace ImageApp.Cache

open Foundations.CStrings Foundations.GuardedRuns Server

/-! ### The rings until one of them is full -/

/-- The images are in the cache in their order, with their descriptors and sizes. -/
structure Filled (cache : ImageCache) (inserted : List CachedImage) : Prop where
  firstLap : FirstLap ⟨cache, inserted⟩
  slots : ∀ idx image, inserted[idx]? = some image →
    cachedFile cache idx = some (image.fd, image.fileSize)

theorem filled_emptyCache : Filled emptyCache [] where
  firstLap := { fileMap_eq := rfl, seekCache_eq := rfl, e_eq := rfl }
  slots := fun _ _ hnone ↦ by simp at hnone

/-- Another image is put behind the others. -/
theorem Filled.insert {cache : ImageCache} {inserted : List CachedImage}
    (hfilled : Filled cache inserted) {image : CachedImage}
    (hfits : (paths (inserted ++ [image])).length ≤ sizeFileListcache)
    (hcount : inserted.length < 128) :
    ∃ cache', insertImage cache image = some cache' ∧ Filled cache' (inserted ++ [image]) := by
  obtain ⟨cache', hinsert, hlap⟩ := firstLap_step hfilled.firstLap hfits
  have he : (cache.e : ℕ) = inserted.length := by
    rw [hfilled.firstLap.e_eq]
    exact Nat.mod_eq_of_lt hcount
  refine ⟨cache', hinsert, hlap, fun idx new hnew ↦ ?_⟩
  have hslots : ∀ idx old, (inserted ++ [])[idx]? = some old →
      cachedFile cache idx = some (old.fd, old.fileSize) := by
    rw [List.append_nil]
    exact hfilled.slots
  exact cachedFile_of_insert hinsert he.symm (Or.inl rfl) hslots idx new hnew

/-- A search finds the first image in whose path the wanted one occurs. -/
theorem Filled.find {cache : ImageCache} {inserted : List CachedImage}
    (hfilled : Filled cache inserted) (hfits : (paths inserted).length ≤ sizeFileListcache)
    (hpaths : ∀ image ∈ inserted, image.path ≠ [] ∧ image.path.length < 128) {path : List Byte}
    (hpath : path ≠ []) :
    findFileInCache path cache.fileMap =
      some ((inserted.findIdx? fun image ↦ occurs path image.path).elim .notCached .cached) := by
  set texts := inserted.map CachedImage.path ++
    List.replicate (sizeFileListcache - (paths inserted).length) [] with htexts
  have hmap : cache.fileMap = packed texts := by
    rw [htexts, packed_append, packed_replicate_nil]
    exact hfilled.firstLap.fileMap_eq
  have hlength : (packed texts).length = sizeFileListcache := by
    rw [htexts, packed_append, packed_replicate_nil, List.length_append, length_zeros]
    exact Nat.add_sub_cancel' hfits
  have hshort : Short texts := by
    intro text htext
    rcases List.mem_append.mp htext with hmem | hmem
    · obtain ⟨image, himage, rfl⟩ := List.mem_map.mp hmem
      exact ⟨image.zero_notMem, (hpaths image himage).2⟩
    · exact short_replicate_nil _ text hmem
  -- No path occurs in the empty strings behind the images.
  have hfind : texts.findIdx? (occurs path) =
      inserted.findIdx? fun image ↦ occurs path image.path := by
    have hempty : occurs path [] = false := by
      rw [occurs, strstr, if_neg hpath]
      rfl
    have hreplicate : ∀ count, (List.replicate count []).findIdx? (occurs path) = none := by
      intro count
      rw [List.findIdx?_eq_none_iff]
      intro text htext
      rw [List.eq_of_mem_replicate htext, hempty]
    rw [htexts, List.findIdx?_append, hreplicate, List.findIdx?_map]
    simp [Function.comp_def]
  rw [hmap]
  cases hcase : texts with
  | nil =>
    rw [hcase] at hlength
    exact absurd hlength (by decide)
  | cons text rest =>
    rw [hcase] at hshort hlength hfind
    rw [findFileInCache_packed hshort hlength, hfind]
    split_ifs with hnil
    · -- The first string is empty, so there is no image.
      cases inserted with
      | nil => rfl
      | cons image others =>
        rw [htexts, List.map_cons, List.cons_append, List.cons.injEq] at hcase
        exact absurd (hcase.1.trans hnil) (hpaths image List.mem_cons_self).1
    · rfl

/-! ### Requests -/

/-- A request for an image, with the descriptor that the system gives out for the cache file, unless
it refuses to open the file. -/
structure ImageRequest where
  image : ImageInfo
  opened : Option ℤ

/-- What a request comes to: a content that is sent behind its size, an error, or the end of the
program. -/
inductive ImageAnswer
  | content (fileSize : ℤ) (text : List Byte)
  | notPresent
  | ended
  deriving DecidableEq, Repr

/-- The machine, the path under which a descriptor was opened last, the answers that were given, and
whether the program has ended. -/
structure ImageServer where
  machine : Machine
  pathOf : ℤ → List Byte
  answers : List (ImageRequest × ImageAnswer)
  ended : Bool

/-- The server before the first request, with the files and the descriptors that it finds. -/
def startServer (files : List Byte → Option (List Byte)) (descriptors : Finset ℤ) :
    ImageServer where
  machine := ⟨files, descriptors, emptyCache⟩
  pathOf := fun _ ↦ []
  answers := []
  ended := false

/-- The system refuses, or gives out a descriptor that is not open. -/
def openingOf (descriptors : Finset ℤ) : Option ℤ → Option (Opening descriptors)
  | none => some .failed
  | some fd =>
    if hfd : 0 ≤ fd ∧ fd ∉ descriptors then some (.opened fd hfd.1 hfd.2) else none

/-- What `sendfile` takes from a descriptor. -/
def sentContent (machine : Machine) (pathOf : ℤ → List Byte) (fd fileSize : ℤ) : List Byte :=
  ((machine.files (pathOf fd)).getD []).take fileSize.toNat

/-- The answer that `handle_client` makes of the result of `get_image_to_send`. -/
def answerOf (machine : Machine) (pathOf : ℤ → List Byte) : ImageToSend → ImageAnswer
  | .cachedImage fd fileSize | .adapted fd fileSize =>
    .content fileSize (sentContent machine pathOf fd fileSize)
  | .imageNotPresent => .notPresent
  | .exited => .ended

/-- The paths of the descriptors after a request, which opens its cache file unless it was found. -/
def pathsAfter (pathOf : ℤ → List Byte) (request : ImageRequest) : Lookup → ℤ → List Byte
  | .cached _ => pathOf
  | .notCached =>
    request.opened.elim pathOf fun fd ↦ Function.update pathOf fd request.image.cachePath

section Serve

variable {Wand : Type*} (arith : Arithmetic) (magick : MagickWand Wand)

/-- A request: the search in the cache, `get_image_to_send`, and the answer. -/
def imageStep (server : ImageServer) (request : ImageRequest) : Option ImageServer :=
  if server.ended then some server
  else
    (findFileInCache request.image.cachePath server.machine.cache.fileMap).bind fun cached ↦
      (openingOf server.machine.descriptors request.opened).bind fun opening ↦
        (getImageToSend arith magick server.machine { request.image with cached := cached }
          opening).map fun (machine, result) ↦
            let pathOf := pathsAfter server.pathOf request cached
            { machine := machine
              pathOf := pathOf
              answers := server.answers ++ [(request, answerOf machine pathOf result)]
              ended := result = .exited }

/-- What is sent without a cache: nothing when the source is absent, and the adapted image unless it
cannot be written. -/
def adaptedContent (files : List Byte → Option (List Byte)) (image : ImageInfo) :
    Option (Option (List Byte)) :=
  (readSource magick files image).map fun wand ↦
    magick.writeImage (adaptImage arith magick image wand) image.cachePath

/-- The answer is the one of a server without a cache, and the size is that of the content. The
program ends only when a cache file cannot be opened or written. -/
def AnswerRight (files : List Byte → Option (List Byte)) (request : ImageRequest) :
    ImageAnswer → Prop
  | .content fileSize text =>
    adaptedContent arith magick files request.image = some (some text) ∧ fileSize = text.length
  | .notPresent => adaptedContent arith magick files request.image = none
  | .ended =>
    request.opened = none ∨ adaptedContent arith magick files request.image = some none

/-- The cache paths of some requests. -/
def cachePaths (requests : List ImageRequest) : Finset (List Byte) :=
  (requests.map fun request ↦ request.image.cachePath).toFinset

/-- The paths name each file once and fit into the buffer of a search, and a path that occurs in
another one stands for the same content. -/
structure Distinguishable (files : List Byte → Option (List Byte)) (requests : List ImageRequest) :
    Prop extends NamesFilesOnce (requests.map ImageRequest.image) where
  short : ∀ request ∈ requests, request.image.cachePath.length < 128
  separate : ∀ first ∈ requests, ∀ second ∈ requests,
    first.image.cachePath <:+: second.image.cachePath →
      adaptedContent arith magick files first.image = adaptedContent arith magick files second.image

/-- Such paths fit into the rings, each once. -/
structure Cacheable (files : List Byte → Option (List Byte)) (requests : List ImageRequest) : Prop
    extends Distinguishable arith magick files requests where
  room : ∑ path ∈ cachePaths requests, (path.length + 1) ≤ sizeFileListcache
  count : (cachePaths requests).card ≤ 128

/-- The system gives out descriptors that are not open. -/
def OpensFresh (server : ImageServer) (request : ImageRequest) : Prop :=
  ∀ fd ∈ request.opened, 0 ≤ fd ∧ fd ∉ server.machine.descriptors

instance decidableOpensFresh (server : ImageServer) (request : ImageRequest) :
    Decidable (OpensFresh server request) :=
  inferInstanceAs (Decidable (∀ fd ∈ request.opened, _))

/-! ### What the entries stand for -/

/-- An entry stands for the content that a request wants: it is in the file of the entry, whose
descriptor is open. -/
structure StandsFor (files : List Byte → Option (List Byte)) (machine : Machine)
    (pathOf : ℤ → List Byte) (entry : CachedImage) (request : ImageRequest) (text : List Byte) :
    Prop where
  path_eq : entry.path = request.image.cachePath
  adapted : adaptedContent arith magick files request.image = some (some text)
  file_eq : machine.files entry.path = some text
  fileSize_eq : entry.fileSize = text.length
  opened : pathOf entry.fd = entry.path
  mem_descriptors : entry.fd ∈ machine.descriptors

/-- The state between two requests: every entry stands for the content of a request, the sources are
as they were, and all answers so far are right. -/
structure Serving (files : List Byte → Option (List Byte)) (requests : List ImageRequest)
    (server : ImageServer) (inserted : List CachedImage) (served : List ImageRequest) : Prop where
  filled : Filled server.machine.cache inserted
  nodup : (inserted.map CachedImage.path).Nodup
  sources : ∀ imageName ext,
    server.machine.files (imagePath imageName ext) = files (imagePath imageName ext)
  entries : ∀ entry ∈ inserted, ∃ request ∈ requests, ∃ text,
    StandsFor arith magick files server.machine server.pathOf entry request text
  answers : ∀ request answer, (request, answer) ∈ server.answers →
    AnswerRight arith magick files request answer
  served : server.ended = false → server.answers.map Prod.fst = served

variable {arith magick} {files : List Byte → Option (List Byte)} {requests : List ImageRequest}
  {server : ImageServer} {inserted : List CachedImage} {served : List ImageRequest}

theorem serving_startServer (descriptors : Finset ℤ) :
    Serving arith magick files requests (startServer files descriptors) [] [] where
  filled := filled_emptyCache
  nodup := List.nodup_nil
  sources := fun _ _ ↦ rfl
  entries := fun _ hmem ↦ absurd hmem List.not_mem_nil
  answers := fun _ _ hmem ↦ absurd hmem List.not_mem_nil
  served := fun _ ↦ rfl

theorem cachePath_ne_nil (image : ImageInfo) : image.cachePath ≠ [] := by
  have hdirectory : imageCache ≠ [] := by decide
  rw [ImageInfo.cachePath, cachePath, List.append_assoc]
  exact List.append_ne_nil_of_left_ne_nil hdirectory _

/-- Different paths of the requests fit into the rings. -/
theorem Cacheable.fits (hcacheable : Cacheable arith magick files requests)
    {images : List CachedImage} (hnodup : (images.map CachedImage.path).Nodup)
    (hpaths : ∀ image ∈ images, image.path ∈ cachePaths requests) :
    (paths images).length ≤ sizeFileListcache ∧ images.length ≤ 128 := by
  have hsubset : (images.map CachedImage.path).toFinset ⊆ cachePaths requests := by
    intro path hmem
    obtain ⟨image, himage, rfl⟩ := List.mem_map.mp (List.mem_toFinset.mp hmem)
    exact hpaths image himage
  have hlength : (paths images).length =
      ∑ path ∈ (images.map CachedImage.path).toFinset, (path.length + 1) := by
    rw [List.sum_toFinset _ hnodup]
    clear hnodup hpaths hsubset
    induction images using List.reverseRecOn with
    | nil => rfl
    | append_singleton images image ih =>
      rw [length_paths_concat, ih, List.map_append, List.map_append, List.sum_append]
      simp [Nat.add_assoc]
  constructor
  · rw [hlength]
    exact (Finset.sum_le_sum_of_subset hsubset).trans hcacheable.room
  · have hcard := (Finset.card_le_card hsubset).trans hcacheable.count
    rw [List.toFinset_card_of_nodup hnodup, List.length_map] at hcard
    exact hcard

/-- The paths of the entries are paths of requests. -/
theorem Serving.mem_cachePaths
    (hserving : Serving arith magick files requests server inserted served)
    {entry : CachedImage} (hentry : entry ∈ inserted) : entry.path ∈ cachePaths requests := by
  obtain ⟨request, hrequest, text, hstands⟩ := hserving.entries entry hentry
  rw [hstands.path_eq, cachePaths, List.mem_toFinset]
  exact List.mem_map_of_mem hrequest

/-- A search in a serving cache. -/
theorem Serving.find (hcacheable : Cacheable arith magick files requests)
    (hserving : Serving arith magick files requests server inserted served) (image : ImageInfo) :
    findFileInCache image.cachePath server.machine.cache.fileMap =
      some ((inserted.findIdx? fun entry ↦ occurs image.cachePath entry.path).elim .notCached
        .cached) := by
  have hfits := hcacheable.fits hserving.nodup fun _ ↦ hserving.mem_cachePaths
  apply hserving.filled.find hfits.1 _ (cachePath_ne_nil image)
  intro entry hentry
  obtain ⟨request, hrequest, text, hstands⟩ := hserving.entries entry hentry
  rw [hstands.path_eq]
  exact ⟨cachePath_ne_nil _, hcacheable.short request hrequest⟩

/-- The sources stay as they were when only a file in the cache directory changes. -/
theorem Serving.sources_later
    (hserving : Serving arith magick files requests server inserted served)
    {machine : Machine} {image : ImageInfo}
    (hfiles : ∀ other, other ≠ image.cachePath →
      machine.files other = server.machine.files other) (imageName ext : List Byte) :
    machine.files (imagePath imageName ext) = files (imagePath imageName ext) := by
  rw [hfiles _ (imagePath_ne_cachePath _ _ _ _), hserving.sources]

/-- The entries go on standing for their contents when only the file of another path changes and
their descriptors stay open. -/
theorem Serving.entries_later
    (hserving : Serving arith magick files requests server inserted served)
    {machine : Machine} {image : ImageInfo} {pathOf : ℤ → List Byte}
    (hfree : ∀ entry ∈ inserted, entry.path ≠ image.cachePath)
    (hfiles : ∀ other, other ≠ image.cachePath →
      machine.files other = server.machine.files other)
    (hdescriptors : server.machine.descriptors ⊆ machine.descriptors)
    (hpathOf : ∀ fd ∈ server.machine.descriptors, pathOf fd = server.pathOf fd)
    (entry : CachedImage) (hentry : entry ∈ inserted) :
    ∃ request ∈ requests, ∃ text,
      StandsFor arith magick files machine pathOf entry request text := by
  obtain ⟨request, hrequest, text, hstands⟩ := hserving.entries entry hentry
  refine ⟨request, hrequest, text, ?_⟩
  exact
    { hstands with
      file_eq := (hfiles _ (hfree entry hentry)).trans hstands.file_eq
      opened := (hpathOf _ hstands.mem_descriptors).trans hstands.opened
      mem_descriptors := hdescriptors hstands.mem_descriptors }

/-- One more answer. -/
theorem Serving.answers_concat
    (hserving : Serving arith magick files requests server inserted served)
    {request : ImageRequest} {answer : ImageAnswer}
    (hright : AnswerRight arith magick files request answer) (other : ImageRequest)
    (answer' : ImageAnswer) (hmem : (other, answer') ∈ server.answers ++ [(request, answer)]) :
    AnswerRight arith magick files other answer' := by
  rcases List.mem_append.mp hmem with hold | hnew
  · exact hserving.answers other answer' hold
  · rw [List.mem_singleton, Prod.mk.injEq] at hnew
    rw [hnew.1, hnew.2]
    exact hright

theorem Serving.served_concat
    (hserving : Serving arith magick files requests server inserted served)
    (hrunning : server.ended = false) (request : ImageRequest) (answer : ImageAnswer) :
    (server.answers ++ [(request, answer)]).map Prod.fst = served ++ [request] := by
  rw [List.map_append, hserving.served hrunning]
  rfl

/-- A request whose path is found is answered from the file of the entry. -/
theorem Serving.hit (hcacheable : Cacheable arith magick files requests)
    (hserving : Serving arith magick files requests server inserted served)
    (hrunning : server.ended = false) {request : ImageRequest} (hrequest : request ∈ requests)
    {opening : Opening server.machine.descriptors}
    (hopening : openingOf server.machine.descriptors request.opened = some opening) {idx : ℕ}
    (hfound : (inserted.findIdx? fun entry ↦ occurs request.image.cachePath entry.path) =
      some idx) :
    ∃ server', imageStep arith magick server request = some server' ∧
      Serving arith magick files requests server' inserted (served ++ [request]) := by
  obtain ⟨hidx, hoccurs, -⟩ := List.findIdx?_eq_some_iff_getElem.mp hfound
  set entry := inserted[idx] with hentry
  obtain ⟨other, hother, text, hstands⟩ := hserving.entries entry (List.getElem_mem hidx)
  have hslot := hserving.filled.slots idx entry (List.getElem?_eq_getElem hidx)
  have hwanted : adaptedContent arith magick files request.image = some (some text) := by
    rw [hstands.path_eq] at hoccurs
    rw [hcacheable.separate request hrequest other hother ((isSome_strstr _ _).mp hoccurs)]
    exact hstands.adapted
  have hsent : sentContent server.machine server.pathOf entry.fd entry.fileSize = text := by
    rw [sentContent, hstands.opened, hstands.file_eq, hstands.fileSize_eq, Option.getD_some,
      Int.toNat_natCast, List.take_length]
  have hstep : imageStep arith magick server request = some
      { server with
        answers := server.answers ++ [(request, .content entry.fileSize text)] } := by
    simp only [imageStep, hrunning, hserving.find hcacheable, hfound, hopening, Option.elim_some,
      Option.bind_some, getImageToSend, hslot, Option.map_some, answerOf, pathsAfter, hsent]
    simp
  refine ⟨_, hstep, ?_⟩
  exact
    { hserving with
      answers := hserving.answers_concat ⟨hwanted, hstands.fileSize_eq⟩
      served := fun _ ↦ hserving.served_concat hrunning _ _ }

/-- What a request reads does not depend on the files in the cache directory. -/
theorem readSource_congr {other : List Byte → Option (List Byte)}
    (hsources : ∀ imageName ext, other (imagePath imageName ext) = files (imagePath imageName ext))
    (image : ImageInfo) : readSource magick other image = readSource magick files image := by
  have himage : other image.imagePath = files image.imagePath := hsources _ _
  have hjpeg : other image.jpegPath = files image.jpegPath := hsources _ _
  rw [readSource, readSource, himage, hjpeg]

/-- A request that leaves the cache as it was. -/
theorem Serving.unpublished (hserving : Serving arith magick files requests server inserted served)
    (hrunning : server.ended = false) {request : ImageRequest} {machine : Machine}
    {pathOf : ℤ → List Byte} {result : ImageToSend}
    (hfree : ∀ entry ∈ inserted, entry.path ≠ request.image.cachePath)
    (hcache : machine.cache = server.machine.cache)
    (hfiles : ∀ other, other ≠ request.image.cachePath →
      machine.files other = server.machine.files other)
    (hdescriptors : server.machine.descriptors ⊆ machine.descriptors)
    (hpathOf : ∀ fd ∈ server.machine.descriptors, pathOf fd = server.pathOf fd)
    (hright : AnswerRight arith magick files request (answerOf machine pathOf result)) :
    Serving arith magick files requests
      { machine := machine
        pathOf := pathOf
        answers := server.answers ++ [(request, answerOf machine pathOf result)]
        ended := result = .exited } inserted (served ++ [request]) where
  filled := hcache ▸ hserving.filled
  nodup := hserving.nodup
  sources := hserving.sources_later hfiles
  entries := hserving.entries_later hfree hfiles hdescriptors hpathOf
  answers := hserving.answers_concat hright
  served := fun _ ↦ hserving.served_concat hrunning _ _

/-- An image whose path is new can be put behind the entries. -/
theorem Serving.room (hcacheable : Cacheable arith magick files requests)
    (hserving : Serving arith magick files requests server inserted served) {request : ImageRequest}
    (hrequest : request ∈ requests)
    (hfree : ∀ entry ∈ inserted, entry.path ≠ request.image.cachePath) (fd fileSize : ℤ) :
    ((inserted ++ [request.image.inCache fd fileSize]).map CachedImage.path).Nodup ∧
      ∃ cache, insertImage server.machine.cache (request.image.inCache fd fileSize) = some cache ∧
        Filled cache (inserted ++ [request.image.inCache fd fileSize]) := by
  set entry := request.image.inCache fd fileSize with hentry
  have hmem : ∀ other ∈ inserted ++ [entry], other.path ∈ cachePaths requests := by
    intro other hother
    rcases List.mem_append.mp hother with hold | hnew
    · exact hserving.mem_cachePaths hold
    · rw [List.mem_singleton] at hnew
      rw [hnew, cachePaths, List.mem_toFinset]
      exact List.mem_map_of_mem hrequest
  have hnodup : ((inserted ++ [entry]).map CachedImage.path).Nodup := by
    rw [List.map_append, List.nodup_append]
    refine ⟨hserving.nodup, List.nodup_singleton _, ?_⟩
    intro path hold other hnew heq
    obtain ⟨old, hmemOld, rfl⟩ := List.mem_map.mp hold
    rw [List.map_singleton, List.mem_singleton] at hnew
    exact hfree old hmemOld (heq.trans hnew)
  obtain ⟨hroom, hcount⟩ := hcacheable.fits hnodup hmem
  rw [List.length_append, List.length_singleton] at hcount
  exact ⟨hnodup, hserving.filled.insert hroom (by omega)⟩

/-- A request whose content is put into the cache. -/
theorem Serving.published (hserving : Serving arith magick files requests server inserted served)
    (hrunning : server.ended = false) {request : ImageRequest} (hrequest : request ∈ requests)
    {machine : Machine} {pathOf : ℤ → List Byte} {fd : ℤ} {text : List Byte} {cache : ImageCache}
    (hfree : ∀ entry ∈ inserted, entry.path ≠ request.image.cachePath)
    (hfiles : ∀ other, other ≠ request.image.cachePath →
      machine.files other = server.machine.files other)
    (hdescriptors : server.machine.descriptors ⊆ machine.descriptors)
    (hpathOf : ∀ fd ∈ server.machine.descriptors, pathOf fd = server.pathOf fd)
    (hnodup : ((inserted ++ [request.image.inCache fd text.length]).map CachedImage.path).Nodup)
    (hfilled : Filled cache (inserted ++ [request.image.inCache fd text.length]))
    (hfile : machine.files request.image.cachePath = some text)
    (hpath : pathOf fd = request.image.cachePath) (hopen : fd ∈ machine.descriptors)
    (hadapted : adaptedContent arith magick files request.image = some (some text)) :
    Serving arith magick files requests
      { machine := { machine with cache := cache }
        pathOf := pathOf
        answers := server.answers ++
          [(request, answerOf { machine with cache := cache } pathOf (.adapted fd text.length))]
        ended := false } (inserted ++ [request.image.inCache fd text.length])
      (served ++ [request]) where
  filled := hfilled
  nodup := hnodup
  sources := hserving.sources_later hfiles
  entries := by
    intro entry hentry
    rcases List.mem_append.mp hentry with hold | hnew
    · exact @Serving.entries_later _ _ _ _ _ _ _ _ hserving { machine with cache := cache } _ _
        hfree hfiles hdescriptors hpathOf entry hold
    · rw [List.mem_singleton] at hnew
      rw [hnew]
      exact ⟨request, hrequest, text, rfl, hadapted, hfile, rfl, hpath, hopen⟩
  answers := by
    apply hserving.answers_concat
    have hsent : sentContent { machine with cache := cache } pathOf fd text.length = text := by
      rw [sentContent, hpath, hfile, Option.getD_some, Int.toNat_natCast, List.take_length]
    rw [answerOf, hsent]
    exact ⟨hadapted, rfl⟩
  served := fun _ ↦ hserving.served_concat hrunning _ _

/-- What the opening of a cache file leaves as it was. -/
theorem openFile_spec (machine : Machine) (path : List Byte)
    (opening : Opening machine.descriptors) :
    (openFile machine path opening).1.cache = machine.cache ∧
      machine.descriptors ⊆ (openFile machine path opening).1.descriptors := by
  cases opening with
  | failed => exact ⟨rfl, Finset.Subset.refl _⟩
  | opened fd hnonneg hfresh => exact ⟨rfl, Finset.subset_insert _ _⟩

/-- A descriptor that is given out is open afterwards, and stands for the path. -/
theorem openingOf_spec {machine : Machine} {request : ImageRequest}
    {opening : Opening machine.descriptors} (pathOf : ℤ → List Byte)
    (hopening : openingOf machine.descriptors request.opened = some opening) :
    (∀ fd ∈ machine.descriptors, pathsAfter pathOf request .notCached fd = pathOf fd) ∧
      ((request.opened = none ∧ (openFile machine request.image.cachePath opening).2 = -1) ∨
        ∃ fd, (openFile machine request.image.cachePath opening).2 = fd ∧ fd ≠ -1 ∧
          fd ∈ (openFile machine request.image.cachePath opening).1.descriptors ∧
          pathsAfter pathOf request .notCached fd = request.image.cachePath) := by
  cases hopened : request.opened with
  | none =>
    rw [hopened, openingOf, Option.some.injEq] at hopening
    rw [← hopening, pathsAfter, hopened]
    exact ⟨fun _ _ ↦ rfl, Or.inl ⟨rfl, rfl⟩⟩
  | some fd =>
    rw [hopened, openingOf] at hopening
    split_ifs at hopening with hfd
    rw [Option.some.injEq] at hopening
    rw [← hopening, pathsAfter, hopened]
    refine ⟨fun other hother ↦ ?_, Or.inr ⟨fd, rfl, ?_, ?_, ?_⟩⟩
    · have hne : other ≠ fd := by
        rintro rfl
        exact hfd.2 hother
      exact Function.update_of_ne hne ..
    · rintro rfl
      exact absurd hfd.1 (by decide)
    · exact Finset.mem_insert_self ..
    · exact Function.update_self ..

/-- A call for an image that was not found. -/
theorem getImageToSend_notCached (machine : Machine) (image : ImageInfo)
    (opening : Opening machine.descriptors) :
    getImageToSend arith magick machine { image with cached := .notCached } opening =
      match readSource magick (openFile machine image.cachePath opening).1.files image with
      | none => some ((openFile machine image.cachePath opening).1, .imageNotPresent)
      | some wand =>
        match magick.writeImage (adaptImage arith magick image wand) image.cachePath with
        | none => some ((openFile machine image.cachePath opening).1, .exited)
        | some text =>
          publishImage
            { (openFile machine image.cachePath opening).1 with
              files := Function.update (openFile machine image.cachePath opening).1.files
                image.cachePath (some text) }
            image (openFile machine image.cachePath opening).2 text.length :=
  rfl

/-- A request whose path is not found is answered from its source, and its content is put into the
cache. -/
theorem Serving.miss (hcacheable : Cacheable arith magick files requests)
    (hserving : Serving arith magick files requests server inserted served)
    (hrunning : server.ended = false) {request : ImageRequest} (hrequest : request ∈ requests)
    {opening : Opening server.machine.descriptors}
    (hopening : openingOf server.machine.descriptors request.opened = some opening)
    (hfound : (inserted.findIdx? fun entry ↦ occurs request.image.cachePath entry.path) = none) :
    ∃ server' inserted', imageStep arith magick server request = some server' ∧
      Serving arith magick files requests server' inserted' (served ++ [request]) := by
  -- No entry has the path.
  have hfree : ∀ entry ∈ inserted, entry.path ≠ request.image.cachePath := by
    intro entry hentry heq
    have hnot := List.findIdx?_eq_none_iff.mp hfound entry hentry
    have hoccurs : occurs request.image.cachePath request.image.cachePath = true :=
      (isSome_strstr _ _).mpr (List.infix_refl _)
    rw [heq, hoccurs] at hnot
    exact absurd hnot (by decide)
  obtain ⟨hcache, hdescriptors⟩ := openFile_spec server.machine request.image.cachePath opening
  obtain ⟨hpathOf, hfd⟩ := openingOf_spec server.pathOf hopening
  have hfiles : ∀ other, other ≠ request.image.cachePath →
      (openFile server.machine request.image.cachePath opening).1.files other =
        server.machine.files other := fun other ↦ openFile_files_of_ne opening
  have hstep : imageStep arith magick server request =
      (getImageToSend arith magick server.machine { request.image with cached := .notCached }
        opening).map fun (machine, result) ↦
          { machine := machine
            pathOf := pathsAfter server.pathOf request .notCached
            answers := server.answers ++
              [(request, answerOf machine (pathsAfter server.pathOf request .notCached) result)]
            ended := result = .exited } := by
    simp only [imageStep, hrunning, hserving.find hcacheable, hfound, hopening, Option.elim_none,
      Option.bind_some]
    simp
  rw [hstep, getImageToSend_notCached]
  clear hstep
  generalize openFile server.machine request.image.cachePath opening = opened at *
  rw [readSource_congr (hserving.sources_later hfiles)]
  cases hsource : readSource magick files request.image with
  | none =>
    have hright : AnswerRight arith magick files request .notPresent := by
      rw [AnswerRight, adaptedContent, hsource, Option.map_none]
    exact ⟨_, inserted, rfl, @Serving.unpublished _ _ _ _ _ _ _ _ hserving hrunning _ _ _
      .imageNotPresent hfree hcache hfiles hdescriptors hpathOf hright⟩
  | some wand =>
    dsimp only
    cases hwrite : magick.writeImage (adaptImage arith magick request.image wand)
        request.image.cachePath with
    | none =>
      have hright : AnswerRight arith magick files request .ended := by
        refine Or.inr ?_
        rw [adaptedContent, hsource, Option.map_some, hwrite]
      exact ⟨_, inserted, rfl, @Serving.unpublished _ _ _ _ _ _ _ _ hserving hrunning _ _ _
        .exited hfree hcache hfiles hdescriptors hpathOf hright⟩
    | some text =>
      have hwritten : ∀ other, other ≠ request.image.cachePath →
          Function.update opened.1.files request.image.cachePath (some text) other =
            server.machine.files other := by
        intro other hother
        rw [Function.update_of_ne hother, hfiles other hother]
      rcases hfd with ⟨hrefused, hnone⟩ | ⟨fd, hfd, hne, hopen, hpath⟩
      · -- Without a descriptor the size of the file cannot be read.
        simp only [publishImage, if_pos hnone]
        exact ⟨_, inserted, rfl, @Serving.unpublished _ _ _ _ _ _ _ _ hserving hrunning _
          { opened.1 with files := _ } _ .exited hfree hcache hwritten hdescriptors hpathOf
          (Or.inl hrefused)⟩
      · obtain ⟨hnodup, cache, hinsert, hfilled⟩ :=
          hserving.room hcacheable hrequest hfree fd text.length
        have hadapted : adaptedContent arith magick files request.image = some (some text) := by
          rw [adaptedContent, hsource, Option.map_some, hwrite]
        simp only [publishImage, hfd, if_neg hne, hcache, hinsert]
        exact ⟨_, _, rfl, @Serving.published _ _ _ _ _ _ _ _ hserving hrunning _ hrequest
          { opened.1 with files := _ } _ _ _ _ hfree hwritten hdescriptors hpathOf hnodup hfilled
          (Function.update_self ..) hpath hopen hadapted⟩

/-- A descriptor that is not open can be given out. -/
theorem exists_openingOf {request : ImageRequest} (hfresh : OpensFresh server request) :
    ∃ opening, openingOf server.machine.descriptors request.opened = some opening := by
  cases hopened : request.opened with
  | none => exact ⟨.failed, rfl⟩
  | some fd =>
    have hfd := hfresh fd hopened
    exact ⟨.opened fd hfd.1 hfd.2, dif_pos hfd⟩

/-- Every request keeps the server serving. -/
theorem Serving.step (hcacheable : Cacheable arith magick files requests)
    (hserving : Serving arith magick files requests server inserted served) {request : ImageRequest}
    (hrequest : request ∈ requests) (hfresh : OpensFresh server request) :
    ∃ server' inserted', imageStep arith magick server request = some server' ∧
      Serving arith magick files requests server' inserted' (served ++ [request]) := by
  by_cases hended : server.ended = true
  · refine ⟨server, inserted, if_pos hended, ?_⟩
    exact { hserving with served := fun hrunning ↦ by simp [hended] at hrunning }
  · rw [Bool.not_eq_true] at hended
    obtain ⟨opening, hopening⟩ := exists_openingOf hfresh
    cases hfound : inserted.findIdx? fun entry ↦ occurs request.image.cachePath entry.path with
    | none => exact hserving.miss hcacheable hended hrequest hopening hfound
    | some idx =>
      obtain ⟨server', hstep, hserving'⟩ :=
        hserving.hit hcacheable hended hrequest hopening hfound
      exact ⟨server', inserted, hstep, hserving'⟩

/-- A request is given one answer, and the program has ended with it or goes on. -/
theorem answers_imageStep {server' : ImageServer} {request : ImageRequest}
    (hrunning : server.ended = false)
    (hstep : imageStep arith magick server request = some server') :
    ∃ answer, server'.answers = server.answers ++ [(request, answer)] ∧
      (server'.ended = true ↔ answer = .ended) := by
  unfold imageStep at hstep
  rw [hrunning, if_neg Bool.false_ne_true] at hstep
  obtain ⟨cached, -, hstep⟩ := Option.bind_eq_some_iff.mp hstep
  obtain ⟨opening, -, hstep⟩ := Option.bind_eq_some_iff.mp hstep
  obtain ⟨⟨machine, result⟩, -, rfl⟩ := Option.map_eq_some_iff.mp hstep
  refine ⟨_, rfl, ?_⟩
  cases result with
  | exited => simp [answerOf]
  | cachedImage | adapted | imageNotPresent => simp [answerOf]

/-- A serving server goes on to the end of its requests. -/
theorem exists_run_serving (hcacheable : Cacheable arith magick files requests)
    (hserving : Serving arith magick files requests server inserted served)
    {rest : List ImageRequest} (hrest : ∀ request ∈ rest, request ∈ requests)
    (hfresh : Guarded (imageStep arith magick) OpensFresh server rest) :
    ∃ server' inserted', run (imageStep arith magick) server rest = some server' ∧
      Serving arith magick files requests server' inserted' (served ++ rest) := by
  induction rest generalizing server inserted served with
  | nil => exact ⟨server, inserted, rfl, by simpa using hserving⟩
  | cons request rest ih =>
    obtain ⟨server', inserted', hstep, hserving'⟩ :=
      hserving.step hcacheable (hrest request List.mem_cons_self) hfresh.1
    obtain ⟨last, inserted'', hrun, hlast⟩ := ih hserving'
      (fun other hother ↦ hrest other (List.mem_cons_of_mem _ hother)) (hfresh.2 server' hstep)
    refine ⟨last, inserted'', run_cons_eq_some.mpr ⟨server', hstep, hrun⟩, ?_⟩
    rw [List.append_cons]
    exact hlast

/-- A call opens at most the cache file, and closes nothing. -/
theorem descriptors_getImageToSend {machine machine' : Machine} {image : ImageInfo}
    {opening : Opening machine.descriptors} {result : ImageToSend}
    (hcall : getImageToSend arith magick machine image opening = some (machine', result)) :
    machine'.descriptors =
      match image.cached with
      | .cached _ => machine.descriptors
      | .notCached => (openFile machine image.cachePath opening).1.descriptors := by
  cases hcached : image.cached with
  | cached idx =>
    simp only [getImageToSend, hcached] at hcall
    obtain ⟨file, -, heq⟩ := Option.map_eq_some_iff.mp hcall
    rw [← (Prod.mk.inj heq).1]
  | notCached =>
    simp only [getImageToSend, hcached] at hcall
    split at hcall
    · rw [Option.some.injEq, Prod.mk.injEq] at hcall
      rw [← hcall.1]
    · split at hcall
      · rw [Option.some.injEq, Prod.mk.injEq] at hcall
        rw [← hcall.1]
      · simp only [publishImage] at hcall
        split_ifs at hcall
        · rw [Option.some.injEq, Prod.mk.injEq] at hcall
          rw [← hcall.1]
        · obtain ⟨cache, -, heq⟩ := Option.map_eq_some_iff.mp hcall
          rw [← (Prod.mk.inj heq).1]

/-- A call changes no file but that at the cache path. -/
theorem files_getImageToSend {machine machine' : Machine} {image : ImageInfo}
    {opening : Opening machine.descriptors} {result : ImageToSend}
    (hcall : getImageToSend arith magick machine image opening = some (machine', result))
    {path : List Byte} (hpath : path ≠ image.cachePath) :
    machine'.files path = machine.files path := by
  have hopened := openFile_files_of_ne opening hpath
  cases hcached : image.cached with
  | cached idx =>
    simp only [getImageToSend, hcached] at hcall
    obtain ⟨file, -, heq⟩ := Option.map_eq_some_iff.mp hcall
    rw [← (Prod.mk.inj heq).1]
  | notCached =>
    simp only [getImageToSend, hcached] at hcall
    split at hcall
    · rw [Option.some.injEq, Prod.mk.injEq] at hcall
      rw [← hcall.1, hopened]
    · split at hcall
      · rw [Option.some.injEq, Prod.mk.injEq] at hcall
        rw [← hcall.1, hopened]
      · simp only [publishImage] at hcall
        split_ifs at hcall
        · rw [Option.some.injEq, Prod.mk.injEq] at hcall
          rw [← hcall.1, ← hopened]
          exact Function.update_of_ne hpath ..
        · obtain ⟨cache, -, heq⟩ := Option.map_eq_some_iff.mp hcall
          rw [← (Prod.mk.inj heq).1, ← hopened]
          exact Function.update_of_ne hpath ..

/-- A request changes no file but that at its cache path. -/
theorem files_imageStep {server' : ImageServer} {request : ImageRequest}
    (hstep : imageStep arith magick server request = some server') {path : List Byte}
    (hpath : path ≠ request.image.cachePath) :
    server'.machine.files path = server.machine.files path := by
  unfold imageStep at hstep
  split_ifs at hstep with hended
  · rw [Option.some.injEq] at hstep
    rw [← hstep]
  · obtain ⟨cached, -, hstep⟩ := Option.bind_eq_some_iff.mp hstep
    obtain ⟨opening, -, hstep⟩ := Option.bind_eq_some_iff.mp hstep
    obtain ⟨⟨machine, result⟩, hcall, rfl⟩ := Option.map_eq_some_iff.mp hstep
    exact files_getImageToSend hcall hpath

/-- In the course of requests whose paths name each file once, a file never has two contents under
their paths. -/
theorem oneContent_of_run {server' : ImageServer} {rest : List ImageRequest}
    (honce : NamesFilesOnce (requests.map ImageRequest.image))
    (hrest : ∀ request ∈ rest, request ∈ requests)
    (hone : OneContent server.machine.files (requests.map ImageRequest.image))
    (hrun : run (imageStep arith magick) server rest = some server') :
    OneContent server'.machine.files (requests.map ImageRequest.image) := by
  have hstep : ∀ (before : ImageServer) (request : ImageRequest) (after : ImageServer),
      OneContent before.machine.files (requests.map ImageRequest.image) → request ∈ requests →
      imageStep arith magick before request = some after →
      OneContent after.machine.files (requests.map ImageRequest.image) :=
    fun before request after hbefore hrequest hstep ↦
      hbefore.write honce (List.mem_map_of_mem hrequest) fun path ↦ files_imageStep hstep
  exact invariant_of_guarded hstep hone (guarded_of_forall hrest) hrun

/-- The descriptors that are open after a request. -/
theorem descriptors_imageStep {server' : ImageServer} {request : ImageRequest}
    (hstep : imageStep arith magick server request = some server') :
    server'.machine.descriptors ⊆ request.opened.toFinset ∪ server.machine.descriptors := by
  unfold imageStep at hstep
  split_ifs at hstep with hended
  · rw [Option.some.injEq] at hstep
    rw [← hstep]
    exact Finset.subset_union_right
  · obtain ⟨cached, -, hstep⟩ := Option.bind_eq_some_iff.mp hstep
    obtain ⟨opening, hopening, hstep⟩ := Option.bind_eq_some_iff.mp hstep
    obtain ⟨⟨machine, result⟩, hcall, rfl⟩ := Option.map_eq_some_iff.mp hstep
    dsimp only
    rw [descriptors_getImageToSend hcall]
    cases cached with
    | cached idx => exact Finset.subset_union_right
    | notCached =>
      cases hopened : request.opened with
      | none =>
        rw [hopened, openingOf, Option.some.injEq] at hopening
        rw [← hopening]
        exact Finset.subset_union_right
      | some fd =>
        rw [hopened, openingOf] at hopening
        split_ifs at hopening with hfd
        rw [Option.some.injEq] at hopening
        rw [← hopening]
        exact Finset.Subset.refl _

/-- Different descriptors that are not open at the start can be given out in every run. -/
theorem guarded_opensFresh {rest : List ImageRequest}
    (hnonneg : ∀ fd ∈ rest.filterMap ImageRequest.opened, 0 ≤ fd)
    (hnodup : (rest.filterMap ImageRequest.opened).Nodup)
    (hfresh : ∀ fd ∈ rest.filterMap ImageRequest.opened, fd ∉ server.machine.descriptors) :
    Guarded (imageStep arith magick) OpensFresh server rest := by
  refine @guarded_of_nodup _ _ _ _
    (fun server ↦ {fd | fd ∈ server.machine.descriptors}) ImageRequest.opened _ ?_ _ ?_ _ hnodup
    hfresh
  · intro server request next hstep fd hfd
    rcases Finset.mem_union.mp (descriptors_imageStep hstep hfd) with hnew | hold
    · exact Or.inr (Option.mem_toFinset.mp hnew)
    · exact Or.inl hold
  · intro server request hrequest hunused fd hfd
    exact ⟨hnonneg fd (List.mem_filterMap.mpr ⟨request, hrequest, hfd⟩), hunused fd hfd⟩

end Serve

/-! ### A photo that is asked for twice -/

/-- A photo and nothing else. -/
def photoFiles (path : List Byte) : Option (List Byte) :=
  if path = imagePath (bytes "photo") (bytes ".jpg") then some (bytes "colors") else none

theorem zero_notMem_jpg : (0 : Byte) ∉ bytes ".jpg" := by
  decide

/-- The photo is asked for twice, and then in another format in which it does not exist. -/
def photoRequests : List ImageRequest :=
  [⟨uncachedPhoto (bytes ".jpg") zero_notMem_jpg, some 3⟩,
    ⟨uncachedPhoto (bytes ".jpg") zero_notMem_jpg, none⟩,
    ⟨uncachedPhoto (bytes ".png") (by decide), some 4⟩]

theorem cacheable_photoRequests : Cacheable ieee copyingWand photoFiles photoRequests where
  toNamesFilesOnce := namesFilesOnce_of_plain (by decide +kernel) (by decide +kernel)
  short := by decide +kernel
  room := by decide +kernel
  count := by decide +kernel
  separate := by decide +kernel

end ImageApp.Cache
