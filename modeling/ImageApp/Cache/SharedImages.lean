import ImageApp.Cache.ServedImages

/-!
# Workers that share the cache of images

Between its search and its answer a worker is for a long time outside the mutex of the cache: it
opens the cache file, reads the source, has MagickWand write the cache file, takes the size of the
file, and sends it. Other workers go on in the meantime, also with the same image: each worker that
misses it adapts it again, and writes the file again that others are sending.

`imagePoolStep` makes each of these a step of its own. What a cache file holds while it is written
is not known, and is part of the step. `answersRight_of_pool` is about every interleaving in which
no insertion goes around in the rings, and in which no worker takes the size of a file or sends it
while the file is being written: every answer is the one of a server without a cache, and no worker
reads or writes outside the cache. The paths of the requests name each file once, and
`oneContent_of_pool` says that then no file has two contents under them. An insertion is one step
here; lookups that overlap with one are the subject of `Publication`.

`exists_run_of_imageStep` says that the steps of a worker in a row are the request of `imageStep`.
-/

set_option autoImplicit false
set_option relaxedAutoImplicit false

namespace ImageApp.Cache

open Foundations.CStrings Foundations.GuardedRuns Server

/-! ### Workers -/

/-- Where a worker is with its request. -/
inductive ImagePlace
  | outside
  | found (request : ImageRequest) (idx : ℕ)
  | missed (request : ImageRequest)
  | opened (request : ImageRequest) (fd : ℤ)
  | writing (request : ImageRequest) (fd : ℤ) (text : List Byte)
  | written (request : ImageRequest) (fd : ℤ)
  | sized (request : ImageRequest) (fd fileSize : ℤ)
  | sending (request : ImageRequest) (fd fileSize : ℤ)

/-- The path of the file that MagickWand is writing for a worker. -/
def writtenPath : ImagePlace → Option (List Byte)
  | .writing request _ _ => some request.image.cachePath
  | _ => none

/-- The machine with the paths of its descriptors, the places of the workers, the images that were
put into the cache, the answers that were given, and whether the program has ended. -/
structure ImagePool (ι : Type*) where
  machine : Machine
  pathOf : ℤ → List Byte
  place : ι → ImagePlace
  inserted : List CachedImage
  answers : List (ImageRequest × ImageAnswer)
  ended : Bool

/-- A step: a worker searches the cache for a request, or goes on with it. When MagickWand starts to
write the cache file, the file holds what is given as `meanwhile` until it is written. -/
inductive ImageAction (ι : Type*)
  | search (worker : ι) (request : ImageRequest)
  | goOn (worker : ι) (meanwhile : List Byte)

section Steps

variable {ι : Type*} [DecidableEq ι] {Wand : Type*} (arith : Arithmetic) (magick : MagickWand Wand)

/-- A worker is at another place. -/
def ImagePool.moveTo (pool : ImagePool ι) (worker : ι) (next : ImagePlace) : ImagePool ι :=
  { pool with place := Function.update pool.place worker next }

@[simp] theorem ImagePool.moveTo_place_self (pool : ImagePool ι) (worker : ι) (next : ImagePlace) :
    (pool.moveTo worker next).place worker = next :=
  Function.update_self ..

theorem ImagePool.moveTo_place_of_ne {pool : ImagePool ι} {worker other : ι} (next : ImagePlace)
    (hother : other ≠ worker) : (pool.moveTo worker next).place other = pool.place other :=
  Function.update_of_ne hother ..

/-- A worker has answered its request, or has ended the program. -/
def ImagePool.answer (pool : ImagePool ι) (worker : ι) (request : ImageRequest)
    (answer : ImageAnswer) : ImagePool ι :=
  { pool.moveTo worker .outside with
    answers := pool.answers ++ [(request, answer)]
    ended := answer = .ended }

/-- The file at the cache path of a request has another content. -/
def ImagePool.writeFile (pool : ImagePool ι) (request : ImageRequest) (text : List Byte) :
    ImagePool ι :=
  { pool with
    machine := { pool.machine with
      files := Function.update pool.machine.files request.image.cachePath (some text) } }

omit [DecidableEq ι] in
/-- The files at other paths stay as they are, and so do the sources. -/
theorem ImagePool.writeFile_files_of_ne {pool : ImagePool ι} {request : ImageRequest}
    {path : List Byte} (text : List Byte) (hpath : path ≠ request.image.cachePath) :
    (pool.writeFile request text).machine.files path = pool.machine.files path :=
  Function.update_of_ne hpath ..

omit [DecidableEq ι] in
theorem ImagePool.writeFile_files_imagePath (pool : ImagePool ι) (request : ImageRequest)
    (text imageName ext : List Byte) :
    (pool.writeFile request text).machine.files (imagePath imageName ext) =
      pool.machine.files (imagePath imageName ext) :=
  writeFile_files_of_ne text (imagePath_ne_cachePath _ _ _ _)

/-- The parts of `get_image_to_send` and of the sending of its result, one after the other. -/
def goOn (pool : ImagePool ι) (worker : ι) (meanwhile : List Byte) : Option (ImagePool ι) :=
  match pool.place worker with
  | .outside => none
  | .found request idx =>
    (cachedFile pool.machine.cache idx).map fun (fd, fileSize) ↦
      pool.moveTo worker (.sending request fd fileSize)
  | .missed request =>
    (openingOf pool.machine.descriptors request.opened).map fun opening ↦
      let opened := openFile pool.machine request.image.cachePath opening
      { pool.moveTo worker (.opened request opened.2) with
        machine := opened.1
        pathOf := pathsAfter pool.pathOf request .notCached }
  | .opened request fd =>
    match readSource magick pool.machine.files request.image with
    | none => some (pool.answer worker request .notPresent)
    | some wand =>
      match magick.writeImage (adaptImage arith magick request.image wand)
        request.image.cachePath with
      | none => some (pool.answer worker request .ended)
      | some text =>
        some ((pool.writeFile request meanwhile).moveTo worker (.writing request fd text))
  | .writing request fd text =>
    some ((pool.writeFile request text).moveTo worker (.written request fd))
  | .written request fd =>
    if fd = -1 then some (pool.answer worker request .ended)
    else
      some (pool.moveTo worker
        (.sized request fd ((pool.machine.files (pool.pathOf fd)).getD []).length))
  | .sized request fd fileSize =>
    let image := request.image.inCache fd fileSize
    (insertImage pool.machine.cache image).map fun cache ↦
      { pool.moveTo worker (.sending request fd fileSize) with
        machine := { pool.machine with cache := cache }
        inserted := pool.inserted ++ [image] }
  | .sending request fd fileSize =>
    some (pool.answer worker request
      (.content fileSize (sentContent pool.machine pool.pathOf fd fileSize)))

/-- A step of a worker, until the program ends. -/
def imagePoolStep (pool : ImagePool ι) (action : ImageAction ι) : Option (ImagePool ι) :=
  if pool.ended then none
  else
    match action with
    | .search worker request =>
      match pool.place worker with
      | .outside =>
        (findFileInCache request.image.cachePath pool.machine.cache.fileMap).map fun
          | .cached idx => pool.moveTo worker (.found request idx)
          | .notCached => pool.moveTo worker (.missed request)
      | _ => none
    | .goOn worker meanwhile => goOn arith magick pool worker meanwhile

/-- The workers before the first request. -/
def startImagePool (files : List Byte → Option (List Byte)) (descriptors : Finset ℤ) :
    ImagePool ι where
  machine := ⟨files, descriptors, emptyCache⟩
  pathOf := fun _ ↦ []
  place := fun _ ↦ .outside
  inserted := []
  answers := []
  ended := false

/-- The image can be put behind the others in both rings. -/
def RoomFor (inserted : List CachedImage) (image : CachedImage) : Prop :=
  (paths (inserted ++ [image])).length ≤ sizeFileListcache ∧ inserted.length < 128

/-- The system gives out fresh descriptors, a file is measured and sent when nobody writes it, and
the rings have room for what is inserted. -/
def UndisturbedAt (pool : ImagePool ι) : ImagePlace → Prop
  | .missed request => ∀ fd ∈ request.opened, 0 ≤ fd ∧ fd ∉ pool.machine.descriptors
  | .written _ fd | .sending _ fd _ =>
    ∀ other, writtenPath (pool.place other) ≠ some (pool.pathOf fd)
  | .sized request fd fileSize => RoomFor pool.inserted (request.image.inCache fd fileSize)
  | .outside | .found .. | .opened .. | .writing .. => True

/-- What is asked for is one of the given requests, and a worker that goes on is not disturbed. -/
def Undisturbed (requests : List ImageRequest) (pool : ImagePool ι) : ImageAction ι → Prop
  | .search _ request => request ∈ requests
  | .goOn worker _ => UndisturbedAt pool (pool.place worker)

/-- The worker is free for a search, or has something to go on with. -/
def Ready (pool : ImagePool ι) : ImageAction ι → Prop
  | .search worker _ => pool.place worker = .outside
  | .goOn worker _ => pool.place worker ≠ .outside

end Steps

/-! ### What the workers rely on -/

section Reliance

variable {ι : Type*} {Wand : Type*} {arith : Arithmetic} {magick : MagickWand Wand}
  (files : List Byte → Option (List Byte)) (requests : List ImageRequest)

variable (arith magick) in
/-- A request with the path wants the content. -/
def Wanted (path text : List Byte) : Prop :=
  ∃ request ∈ requests, request.image.cachePath = path ∧
    adaptedContent arith magick files request.image = some (some text)

/-- The file has the content, unless somebody is writing it. -/
def HasContent (pool : ImagePool ι) (path text : List Byte) : Prop :=
  (∀ worker, writtenPath (pool.place worker) ≠ some path) → pool.machine.files path = some text

variable (arith magick) in
/-- A descriptor with a size is as good as the content: it is open, its file has the content, and
the size is that of the content. -/
structure Shows (pool : ImagePool ι) (fd fileSize : ℤ) (path text : List Byte) : Prop where
  mem_descriptors : fd ∈ pool.machine.descriptors
  pathOf_eq : pool.pathOf fd = path
  fileSize_eq : fileSize = text.length
  wanted : Wanted arith magick files requests path text
  settled : HasContent pool path text

/-- The cache file of a request was opened, unless the system refused it. -/
def OpenedFor (pool : ImagePool ι) (request : ImageRequest) (fd : ℤ) : Prop :=
  request.opened = none ∧ fd = -1 ∨
    fd ≠ -1 ∧ fd ∈ pool.machine.descriptors ∧ pool.pathOf fd = request.image.cachePath

variable (arith magick) in
/-- What a worker knows of its request. -/
def PlaceRight (pool : ImagePool ι) : ImagePlace → Prop
  | .outside => True
  | .found request idx =>
    request ∈ requests ∧
      ∃ entry, pool.inserted[idx]? = some entry ∧ request.image.cachePath <:+: entry.path
  | .missed request => request ∈ requests
  | .opened request fd => request ∈ requests ∧ OpenedFor pool request fd
  | .writing request fd text =>
    request ∈ requests ∧ OpenedFor pool request fd ∧
      adaptedContent arith magick files request.image = some (some text)
  | .written request fd =>
    request ∈ requests ∧ OpenedFor pool request fd ∧
      ∃ text, adaptedContent arith magick files request.image = some (some text) ∧
        HasContent pool request.image.cachePath text
  | .sized request fd fileSize =>
    ∃ text, adaptedContent arith magick files request.image = some (some text) ∧
      Shows arith magick files requests pool fd fileSize request.image.cachePath text
  | .sending request fd fileSize =>
    ∃ path text, adaptedContent arith magick files request.image = some (some text) ∧
      Shows arith magick files requests pool fd fileSize path text

variable (arith magick) in
/-- The rings are not full, every entry shows its content, the workers know what they need, and all
answers so far are right. -/
structure Sharing (pool : ImagePool ι) : Prop where
  filled : Filled pool.machine.cache pool.inserted
  fits : (paths pool.inserted).length ≤ sizeFileListcache
  sources : ∀ imageName ext,
    pool.machine.files (imagePath imageName ext) = files (imagePath imageName ext)
  entries : ∀ entry ∈ pool.inserted, ∃ text,
    Shows arith magick files requests pool entry.fd entry.fileSize entry.path text
  places : ∀ worker, PlaceRight arith magick files requests pool (pool.place worker)
  answers : ∀ request answer, (request, answer) ∈ pool.answers →
    AnswerRight arith magick files request answer

variable {files requests} {pool pool' : ImagePool ι} {worker : ι}

theorem sharing_startImagePool (descriptors : Finset ℤ) :
    Sharing arith magick files requests (startImagePool files descriptors : ImagePool ι) where
  filled := filled_emptyCache
  fits := by simp [startImagePool, paths, packed]
  sources := fun _ _ ↦ rfl
  entries := fun _ hmem ↦ absurd hmem List.not_mem_nil
  places := fun _ ↦ trivial
  answers := fun _ _ hmem ↦ absurd hmem List.not_mem_nil

/-- A path has one content. -/
theorem Distinguishable.eq_of_wanted
    (hdistinguishable : Distinguishable arith magick files requests) {path text other : List Byte}
    (hwanted : Wanted arith magick files requests path text)
    (hother : Wanted arith magick files requests path other) : text = other := by
  obtain ⟨first, hfirst, hpath, htext⟩ := hwanted
  obtain ⟨second, hsecond, rfl, htext'⟩ := hother
  have hsame := hdistinguishable.separate first hfirst second hsecond
    (hpath ▸ List.infix_refl _)
  rw [htext, htext', Option.some.injEq, Option.some.injEq] at hsame
  exact hsame

/-! ### What a step leaves as it was -/

variable (arith magick files requests) in
/-- What the workers rely on is there after a step as it was before. -/
structure Later (pool pool' : ImagePool ι) : Prop where
  subset : pool.machine.descriptors ⊆ pool'.machine.descriptors
  pathOf_eq : ∀ fd ∈ pool.machine.descriptors, pool'.pathOf fd = pool.pathOf fd
  prefix_inserted : pool.inserted <+: pool'.inserted
  sources : ∀ imageName ext,
    pool'.machine.files (imagePath imageName ext) = pool.machine.files (imagePath imageName ext)
  settled : ∀ path text, Wanted arith magick files requests path text →
    HasContent pool path text → HasContent pool' path text

theorem Shows.later (hlater : Later arith magick files requests pool pool') {fd fileSize : ℤ}
    {path text : List Byte}
    (hshows : Shows arith magick files requests pool fd fileSize path text) :
    Shows arith magick files requests pool' fd fileSize path text where
  mem_descriptors := hlater.subset hshows.mem_descriptors
  pathOf_eq := (hlater.pathOf_eq fd hshows.mem_descriptors).trans hshows.pathOf_eq
  fileSize_eq := hshows.fileSize_eq
  wanted := hshows.wanted
  settled := hlater.settled path text hshows.wanted hshows.settled

theorem OpenedFor.later (hlater : Later arith magick files requests pool pool')
    {request : ImageRequest} {fd : ℤ} (hopened : OpenedFor pool request fd) :
    OpenedFor pool' request fd := by
  refine hopened.imp_right fun ⟨hne, hmem, hpath⟩ ↦ ⟨hne, hlater.subset hmem, ?_⟩
  rw [hlater.pathOf_eq fd hmem, hpath]

/-- What a worker knows stays true when others go on. -/
theorem PlaceRight.later (hlater : Later arith magick files requests pool pool')
    {place : ImagePlace} (hright : PlaceRight arith magick files requests pool place) :
    PlaceRight arith magick files requests pool' place := by
  cases place with
  | outside => trivial
  | found request idx =>
    obtain ⟨hrequest, entry, hentry, hoccurs⟩ := hright
    obtain ⟨rest, hrest⟩ := hlater.prefix_inserted
    refine ⟨hrequest, entry, ?_, hoccurs⟩
    rw [← hrest, List.getElem?_append_left (List.getElem?_eq_some_iff.mp hentry).1, hentry]
  | missed request => exact hright
  | opened request fd => exact ⟨hright.1, hright.2.later hlater⟩
  | writing request fd text => exact ⟨hright.1, hright.2.1.later hlater, hright.2.2⟩
  | written request fd =>
    obtain ⟨hrequest, hopened, text, hadapted, hsettled⟩ := hright
    exact ⟨hrequest, hopened.later hlater, text, hadapted,
      hlater.settled _ text ⟨request, hrequest, rfl, hadapted⟩ hsettled⟩
  | sized request fd fileSize =>
    obtain ⟨text, hadapted, hshows⟩ := hright
    exact ⟨text, hadapted, hshows.later hlater⟩
  | sending request fd fileSize =>
    obtain ⟨path, text, hadapted, hshows⟩ := hright
    exact ⟨path, text, hadapted, hshows.later hlater⟩

end Reliance

section Preservation

variable {ι : Type*} [DecidableEq ι] {Wand : Type*} {arith : Arithmetic} {magick : MagickWand Wand}
  {files : List Byte → Option (List Byte)} {requests : List ImageRequest}
  {pool pool' : ImagePool ι} {worker : ι}

/-- A worker that neither starts nor ends to write a file goes on. -/
theorem writtenPath_update {next : ImagePlace} (hplace : writtenPath (pool.place worker) = none)
    (hnext : writtenPath next = none) (other : ι) :
    writtenPath (Function.update pool.place worker next other) =
      writtenPath (pool.place other) := by
  by_cases hother : other = worker
  · rw [hother, Function.update_self, hnext, hplace]
  · rw [Function.update_of_ne hother]

/-- Such a step changes no file. -/
theorem later_of_quiet {next : ImagePlace}
    (hplace : writtenPath (pool.place worker) = none) (hnext : writtenPath next = none)
    (hmoved : pool'.place = Function.update pool.place worker next)
    (hfiles : pool'.machine.files = pool.machine.files)
    (hdescriptors : pool'.machine.descriptors = pool.machine.descriptors)
    (hpathOf : pool'.pathOf = pool.pathOf) (hkept : pool.inserted <+: pool'.inserted) :
    Later arith magick files requests pool pool' where
  subset := hdescriptors ▸ Finset.Subset.refl _
  pathOf_eq := fun _ _ ↦ hpathOf ▸ rfl
  prefix_inserted := hkept
  sources := fun _ _ ↦ hfiles ▸ rfl
  settled := by
    intro path text hwanted hsettled hfree
    rw [hfiles]
    apply hsettled
    intro other
    rw [← writtenPath_update hplace hnext, ← hmoved]
    exact hfree other

theorem later_moveTo {next : ImagePlace} (hplace : writtenPath (pool.place worker) = none)
    (hnext : writtenPath next = none) :
    Later arith magick files requests pool (pool.moveTo worker next) :=
  later_of_quiet hplace hnext rfl rfl rfl rfl List.prefix_rfl

/-- A file that is there is not changed when it is opened. -/
theorem openFile_files_of_some {machine : Machine} {path other text : List Byte}
    (opening : Opening machine.descriptors) (hfile : machine.files other = some text) :
    (openFile machine path opening).1.files other = some text := by
  cases opening with
  | failed => exact hfile
  | opened fd hnonneg hfresh =>
    by_cases hother : other = path
    · rw [← hother]
      simp only [openFile, hfile, Option.isSome_some, if_true]
    · simp only [openFile]
      split_ifs
      · exact hfile
      · rw [Function.update_of_ne hother, hfile]

/-- A worker opens its cache file. -/
theorem later_open {request : ImageRequest} {opening : Opening pool.machine.descriptors}
    (hopening : openingOf pool.machine.descriptors request.opened = some opening)
    {next : ImagePlace} (hplace : writtenPath (pool.place worker) = none)
    (hnext : writtenPath next = none) :
    Later arith magick files requests pool
      { pool.moveTo worker next with
        machine := (openFile pool.machine request.image.cachePath opening).1
        pathOf := pathsAfter pool.pathOf request .notCached } where
  subset := (openFile_spec ..).2
  pathOf_eq := (openingOf_spec pool.pathOf hopening).1
  prefix_inserted := List.prefix_rfl
  sources := fun _ _ ↦ openFile_files_of_ne opening (imagePath_ne_cachePath _ _ _ _)
  settled := by
    intro path text hwanted hsettled hfree
    apply openFile_files_of_some
    apply hsettled
    intro other
    rw [← writtenPath_update hplace hnext]
    exact hfree other

/-- A worker starts to write its cache file. Nobody relies on what the file holds meanwhile. -/
theorem later_startWriting {request : ImageRequest} {fd : ℤ} {meanwhile text : List Byte}
    (hplace : writtenPath (pool.place worker) = none) :
    Later arith magick files requests pool
      ((pool.writeFile request meanwhile).moveTo worker (.writing request fd text)) where
  subset := Finset.Subset.refl _
  pathOf_eq := fun _ _ ↦ rfl
  prefix_inserted := List.prefix_rfl
  sources := pool.writeFile_files_imagePath request _
  settled := by
    intro path content hwanted hsettled hfree
    have hpath : path ≠ request.image.cachePath := by
      rintro rfl
      refine hfree worker ?_
      rw [ImagePool.moveTo_place_self, writtenPath]
    refine (ImagePool.writeFile_files_of_ne _ hpath).trans (hsettled fun other ↦ ?_)
    by_cases hother : other = worker
    · rw [hother, hplace]
      simp
    · have hsame := hfree other
      rwa [ImagePool.moveTo_place_of_ne _ hother] at hsame

/-- A worker has written its cache file, and the content is the one that everybody wants of it. -/
theorem later_endWriting (hdistinguishable : Distinguishable arith magick files requests)
    {request : ImageRequest} {fd : ℤ} {text : List Byte}
    (hplace : pool.place worker = .writing request fd text)
    (hwritten : Wanted arith magick files requests request.image.cachePath text) :
    Later arith magick files requests pool
      ((pool.writeFile request text).moveTo worker (.written request fd)) where
  subset := Finset.Subset.refl _
  pathOf_eq := fun _ _ ↦ rfl
  prefix_inserted := List.prefix_rfl
  sources := pool.writeFile_files_imagePath request _
  settled := by
    intro path content hwanted hsettled hfree
    by_cases hpath : path = request.image.cachePath
    · subst hpath
      rw [hdistinguishable.eq_of_wanted hwanted hwritten]
      exact Function.update_self ..
    · refine (ImagePool.writeFile_files_of_ne _ hpath).trans (hsettled fun other ↦ ?_)
      by_cases hother : other = worker
      · rw [hother, hplace, writtenPath, Ne, Option.some.injEq]
        exact Ne.symm hpath
      · have hsame := hfree other
        rwa [ImagePool.moveTo_place_of_ne _ hother] at hsame

/-- One worker has gone on, and nothing was put into the cache. -/
theorem Sharing.later (hsharing : Sharing arith magick files requests pool)
    (hlater : Later arith magick files requests pool pool') {next : ImagePlace}
    (hplace : pool'.place = Function.update pool.place worker next)
    (hnext : PlaceRight arith magick files requests pool' next)
    (hcache : pool'.machine.cache = pool.machine.cache) (hinserted : pool'.inserted = pool.inserted)
    (hanswers : ∀ request answer, (request, answer) ∈ pool'.answers →
      (request, answer) ∈ pool.answers ∨ AnswerRight arith magick files request answer) :
    Sharing arith magick files requests pool' where
  filled := by
    rw [hcache, hinserted]
    exact hsharing.filled
  fits := by
    rw [hinserted]
    exact hsharing.fits
  sources := fun imageName ext ↦ (hlater.sources imageName ext).trans (hsharing.sources ..)
  entries := by
    intro entry hentry
    rw [hinserted] at hentry
    obtain ⟨text, hshows⟩ := hsharing.entries entry hentry
    exact ⟨text, hshows.later hlater⟩
  places := by
    intro other
    rw [hplace]
    by_cases hother : other = worker
    · rw [hother, Function.update_self]
      exact hnext
    · rw [Function.update_of_ne hother]
      exact (hsharing.places other).later hlater
  answers := fun request answer hmem ↦
    (hanswers request answer hmem).elim (hsharing.answers request answer) id

/-! ### The steps of a worker -/

/-- A worker gives an answer that is right. -/
theorem Sharing.answer (hsharing : Sharing arith magick files requests pool)
    (hplace : writtenPath (pool.place worker) = none) {request : ImageRequest}
    {answer : ImageAnswer} (hright : AnswerRight arith magick files request answer) :
    Sharing arith magick files requests (pool.answer worker request answer) := by
  have hlater : Later arith magick files requests pool (pool.answer worker request answer) :=
    later_of_quiet hplace rfl rfl rfl rfl rfl List.prefix_rfl
  refine hsharing.later hlater rfl trivial rfl rfl fun other answer' hmem ↦ ?_
  rcases List.mem_append.mp hmem with hold | hnew
  · exact Or.inl hold
  · rw [List.mem_singleton, Prod.mk.injEq] at hnew
    rw [hnew.1, hnew.2]
    exact Or.inr hright

/-- A worker changes nothing but its place. -/
theorem Sharing.moveTo (hsharing : Sharing arith magick files requests pool) {next : ImagePlace}
    (hplace : writtenPath (pool.place worker) = none) (hnext : writtenPath next = none)
    (hright : PlaceRight arith magick files requests (pool.moveTo worker next) next) :
    Sharing arith magick files requests (pool.moveTo worker next) :=
  hsharing.later (later_moveTo hplace hnext) rfl hright rfl rfl
    fun _ _ hmem ↦ Or.inl hmem

omit [DecidableEq ι] in
/-- A file that nobody is writing is sent as it should be. -/
theorem Shows.sentContent_eq {fd fileSize : ℤ} {path text : List Byte}
    (hshows : Shows arith magick files requests pool fd fileSize path text)
    (hquiet : ∀ other, writtenPath (pool.place other) ≠ some (pool.pathOf fd)) :
    sentContent pool.machine pool.pathOf fd fileSize = text := by
  rw [hshows.pathOf_eq] at hquiet
  rw [sentContent, hshows.pathOf_eq, hshows.settled hquiet, hshows.fileSize_eq, Option.getD_some,
    Int.toNat_natCast, List.take_length]

variable (meanwhile : List Byte)

/-- A worker that has found an entry takes its descriptor and its size. -/
theorem Sharing.found (hdistinguishable : Distinguishable arith magick files requests)
    (hsharing : Sharing arith magick files requests pool) {request : ImageRequest} {idx : ℕ}
    (hplace : pool.place worker = .found request idx) :
    ∃ pool', goOn arith magick pool worker meanwhile = some pool' ∧
      Sharing arith magick files requests pool' := by
  have hright := hsharing.places worker
  rw [hplace] at hright
  obtain ⟨hrequest, entry, hentry, hoccurs⟩ := hright
  obtain ⟨text, hshows⟩ := hsharing.entries entry (List.mem_of_getElem? hentry)
  obtain ⟨other, hother, hpath, hadapted⟩ := hshows.wanted
  have hquiet : writtenPath (pool.place worker) = none := by
    rw [hplace]
    rfl
  have hslot := hsharing.filled.slots idx entry hentry
  refine ⟨pool.moveTo worker (.sending request entry.fd entry.fileSize), ?_, ?_⟩
  · simp only [goOn, hplace, hslot, Option.map_some]
  · apply hsharing.moveTo hquiet rfl
    refine ⟨entry.path, text, ?_, ?_⟩
    · rw [← hadapted]
      exact hdistinguishable.separate request hrequest other hother (hpath ▸ hoccurs)
    · exact hshows.later (later_moveTo hquiet rfl)

/-- A worker that has found nothing opens its cache file. -/
theorem Sharing.missed (hsharing : Sharing arith magick files requests pool)
    {request : ImageRequest} (hplace : pool.place worker = .missed request)
    (hfresh : ∀ fd ∈ request.opened, 0 ≤ fd ∧ fd ∉ pool.machine.descriptors) :
    ∃ pool', goOn arith magick pool worker meanwhile = some pool' ∧
      Sharing arith magick files requests pool' := by
  have hright := hsharing.places worker
  rw [hplace] at hright
  have hquiet : writtenPath (pool.place worker) = none := by
    rw [hplace]
    rfl
  obtain ⟨opening, hopening⟩ : ∃ opening,
      openingOf pool.machine.descriptors request.opened = some opening := by
    cases hopened : request.opened with
    | none => exact ⟨.failed, rfl⟩
    | some fd => exact ⟨.opened fd (hfresh fd hopened).1 (hfresh fd hopened).2,
        dif_pos (hfresh fd hopened)⟩
  refine ⟨_, by simp only [goOn, hplace, hopening, Option.map_some]; rfl, ?_⟩
  refine hsharing.later (later_open hopening hquiet rfl) rfl ⟨hright, ?_⟩ (openFile_spec ..).1 rfl
    fun _ _ hmem ↦ Or.inl hmem
  rcases (openingOf_spec pool.pathOf hopening).2 with ⟨hnone, hfd⟩ | ⟨fd, rfl, hne, hmem, hpath⟩
  · exact Or.inl ⟨hnone, hfd⟩
  · exact Or.inr ⟨hne, hmem, hpath⟩

/-- A worker that has opened its cache file reads the source and adapts it. -/
theorem Sharing.opened (hsharing : Sharing arith magick files requests pool)
    {request : ImageRequest} {fd : ℤ} (hplace : pool.place worker = .opened request fd) :
    ∃ pool', goOn arith magick pool worker meanwhile = some pool' ∧
      Sharing arith magick files requests pool' := by
  have hright := hsharing.places worker
  rw [hplace] at hright
  obtain ⟨hrequest, hopened⟩ := hright
  have hquiet : writtenPath (pool.place worker) = none := by
    rw [hplace]
    rfl
  have hread : readSource magick pool.machine.files request.image =
      readSource magick files request.image :=
    readSource_congr hsharing.sources request.image
  cases hsource : readSource magick files request.image with
  | none =>
    refine ⟨pool.answer worker request .notPresent, ?_, hsharing.answer hquiet ?_⟩
    · simp only [goOn, hplace, hread, hsource]
    · rw [AnswerRight, adaptedContent, hsource, Option.map_none]
  | some wand =>
    cases hwrite : magick.writeImage (adaptImage arith magick request.image wand)
        request.image.cachePath with
    | none =>
      refine ⟨pool.answer worker request .ended, ?_, hsharing.answer hquiet (Or.inr ?_)⟩
      · simp only [goOn, hplace, hread, hsource, hwrite]
      · rw [adaptedContent, hsource, Option.map_some, hwrite]
    | some text =>
      have hlater := @later_startWriting _ _ _ arith magick files requests _ _ request fd meanwhile
        text hquiet
      refine ⟨(pool.writeFile request meanwhile).moveTo worker (.writing request fd text), ?_, ?_⟩
      · simp only [goOn, hplace, hread, hsource, hwrite]
      · refine hsharing.later hlater rfl ⟨hrequest, hopened.later hlater, ?_⟩ rfl rfl
          fun _ _ hmem ↦ Or.inl hmem
        rw [adaptedContent, hsource, Option.map_some, hwrite]

/-- A worker ends to write its cache file. -/
theorem Sharing.writing (hdistinguishable : Distinguishable arith magick files requests)
    (hsharing : Sharing arith magick files requests pool) {request : ImageRequest} {fd : ℤ}
    {text : List Byte} (hplace : pool.place worker = .writing request fd text) :
    ∃ pool', goOn arith magick pool worker meanwhile = some pool' ∧
      Sharing arith magick files requests pool' := by
  have hright := hsharing.places worker
  rw [hplace] at hright
  obtain ⟨hrequest, hopened, hadapted⟩ := hright
  have hlater := later_endWriting hdistinguishable hplace ⟨request, hrequest, rfl, hadapted⟩
  refine ⟨(pool.writeFile request text).moveTo worker (.written request fd), ?_, ?_⟩
  · simp only [goOn, hplace]
  · refine hsharing.later hlater rfl
      ⟨hrequest, hopened.later hlater, text, hadapted, fun _ ↦ ?_⟩ rfl rfl
      fun _ _ hmem ↦ Or.inl hmem
    exact Function.update_self ..

/-- A worker that has written its cache file takes its size, when nobody else is writing it. -/
theorem Sharing.written (hsharing : Sharing arith magick files requests pool)
    {request : ImageRequest} {fd : ℤ} (hplace : pool.place worker = .written request fd)
    (hfree : ∀ other, writtenPath (pool.place other) ≠ some (pool.pathOf fd)) :
    ∃ pool', goOn arith magick pool worker meanwhile = some pool' ∧
      Sharing arith magick files requests pool' := by
  have hright := hsharing.places worker
  rw [hplace] at hright
  obtain ⟨hrequest, hopened, text, hadapted, hsettled⟩ := hright
  have hquiet : writtenPath (pool.place worker) = none := by
    rw [hplace]
    rfl
  rcases hopened with ⟨hnone, hfd⟩ | ⟨hfd, hmem, hpath⟩
  · refine ⟨pool.answer worker request .ended, ?_, hsharing.answer hquiet (Or.inl hnone)⟩
    simp only [goOn, hplace, if_pos hfd]
  · rw [hpath] at hfree
    have hsize : ((pool.machine.files (pool.pathOf fd)).getD []).length = text.length := by
      rw [hpath, hsettled hfree, Option.getD_some]
    refine ⟨pool.moveTo worker (.sized request fd text.length), ?_, hsharing.moveTo hquiet rfl ?_⟩
    · simp only [goOn, hplace, if_neg hfd, hsize]
    · have hshows : Shows arith magick files requests pool fd text.length request.image.cachePath
          text :=
        ⟨hmem, hpath, rfl, ⟨request, hrequest, rfl, hadapted⟩, hsettled⟩
      exact ⟨text, hadapted, hshows.later (later_moveTo hquiet rfl)⟩

/-- A worker puts its image into the cache. -/
theorem Sharing.sized (hsharing : Sharing arith magick files requests pool)
    {request : ImageRequest} {fd fileSize : ℤ}
    (hplace : pool.place worker = .sized request fd fileSize)
    (hroom : RoomFor pool.inserted (request.image.inCache fd fileSize)) :
    ∃ pool', goOn arith magick pool worker meanwhile = some pool' ∧
      Sharing arith magick files requests pool' := by
  have hright := hsharing.places worker
  rw [hplace] at hright
  obtain ⟨text, hadapted, hshows⟩ := hright
  have hquiet : writtenPath (pool.place worker) = none := by
    rw [hplace]
    rfl
  obtain ⟨cache, hinsert, hfilled⟩ := hsharing.filled.insert hroom.1 hroom.2
  set image := request.image.inCache fd fileSize with himage
  set next : ImagePool ι :=
    { pool.moveTo worker (.sending request fd fileSize) with
      machine := { pool.machine with cache := cache }
      inserted := pool.inserted ++ [image] } with hnext
  have hlater : Later arith magick files requests pool next :=
    later_of_quiet hquiet rfl rfl rfl rfl rfl (List.prefix_append _ _)
  refine ⟨next, by simp only [goOn, hplace, ← himage, hinsert, Option.map_some, hnext], ?_⟩
  exact
    { filled := hfilled
      fits := hroom.1
      sources := hsharing.sources
      entries := by
        intro entry hentry
        rcases List.mem_append.mp hentry with hold | hnew
        · obtain ⟨text', hshows'⟩ := hsharing.entries entry hold
          exact ⟨text', hshows'.later hlater⟩
        · rw [List.mem_singleton.mp hnew]
          exact ⟨text, hshows.later hlater⟩
      places := by
        intro other
        by_cases hother : other = worker
        · subst hother
          rw [show next.place other = _ from Function.update_self ..]
          exact ⟨request.image.cachePath, text, hadapted, hshows.later hlater⟩
        · rw [show next.place other = _ from Function.update_of_ne hother ..]
          exact (hsharing.places other).later hlater
      answers := hsharing.answers }

/-- A worker sends its file, when nobody is writing it. -/
theorem Sharing.sending (hsharing : Sharing arith magick files requests pool)
    {request : ImageRequest} {fd fileSize : ℤ}
    (hplace : pool.place worker = .sending request fd fileSize)
    (hfree : ∀ other, writtenPath (pool.place other) ≠ some (pool.pathOf fd)) :
    ∃ pool', goOn arith magick pool worker meanwhile = some pool' ∧
      Sharing arith magick files requests pool' := by
  have hright := hsharing.places worker
  rw [hplace] at hright
  obtain ⟨path, text, hadapted, hshows⟩ := hright
  have hquiet : writtenPath (pool.place worker) = none := by
    rw [hplace]
    rfl
  refine ⟨_, by simp only [goOn, hplace]; rfl, hsharing.answer hquiet ?_⟩
  rw [hshows.sentContent_eq hfree]
  exact ⟨hadapted, hshows.fileSize_eq⟩

/-- A worker that is free searches the cache. -/
theorem Sharing.search (hdistinguishable : Distinguishable arith magick files requests)
    (hsharing : Sharing arith magick files requests pool) (hrunning : pool.ended = false)
    (hplace : pool.place worker = .outside) {request : ImageRequest}
    (hrequest : request ∈ requests) :
    ∃ pool', imagePoolStep arith magick pool (.search worker request) = some pool' ∧
      Sharing arith magick files requests pool' := by
  have hquiet : writtenPath (pool.place worker) = none := by
    rw [hplace]
    rfl
  have hpaths : ∀ entry ∈ pool.inserted, entry.path ≠ [] ∧ entry.path.length < 128 := by
    intro entry hentry
    obtain ⟨text, hshows⟩ := hsharing.entries entry hentry
    obtain ⟨other, hother, hpath, -⟩ := hshows.wanted
    rw [← hpath]
    exact ⟨cachePath_ne_nil _, hdistinguishable.short other hother⟩
  have hfind := hsharing.filled.find hsharing.fits hpaths (cachePath_ne_nil request.image)
  cases hfound : pool.inserted.findIdx? fun entry ↦ occurs request.image.cachePath entry.path with
  | none =>
    refine ⟨pool.moveTo worker (.missed request), ?_, hsharing.moveTo hquiet rfl hrequest⟩
    simp only [imagePoolStep, hrunning, hplace, hfind, hfound, Option.elim_none, Option.map_some,
      if_neg Bool.false_ne_true]
  | some idx =>
    refine ⟨pool.moveTo worker (.found request idx), ?_, hsharing.moveTo hquiet rfl ?_⟩
    · simp only [imagePoolStep, hrunning, hplace, hfind, hfound, Option.elim_some, Option.map_some,
        if_neg Bool.false_ne_true]
    · obtain ⟨hidx, hoccurs, -⟩ := List.findIdx?_eq_some_iff_getElem.mp hfound
      exact ⟨hrequest, _, List.getElem?_eq_getElem hidx, (isSome_strstr _ _).mp hoccurs⟩

/-- Every undisturbed step of a worker that is ready for it can be taken, and keeps what the workers
rely on. -/
theorem Sharing.step (hdistinguishable : Distinguishable arith magick files requests)
    (hsharing : Sharing arith magick files requests pool) (hrunning : pool.ended = false)
    {action : ImageAction ι} (hready : Ready pool action)
    (hundisturbed : Undisturbed requests pool action) :
    ∃ pool', imagePoolStep arith magick pool action = some pool' ∧
      Sharing arith magick files requests pool' := by
  cases action with
  | search worker request => exact hsharing.search hdistinguishable hrunning hready hundisturbed
  | goOn worker meanwhile =>
    rw [imagePoolStep, hrunning, if_neg Bool.false_ne_true]
    rw [Undisturbed] at hundisturbed
    cases hplace : pool.place worker with
    | outside => exact absurd hplace hready
    | found request idx => exact hsharing.found meanwhile hdistinguishable hplace
    | missed request =>
      rw [hplace] at hundisturbed
      exact hsharing.missed meanwhile hplace hundisturbed
    | opened request fd => exact hsharing.opened meanwhile hplace
    | writing request fd text => exact hsharing.writing meanwhile hdistinguishable hplace
    | written request fd =>
      rw [hplace] at hundisturbed
      exact hsharing.written meanwhile hplace hundisturbed
    | sized request fd fileSize =>
      rw [hplace] at hundisturbed
      exact hsharing.sized meanwhile hplace hundisturbed
    | sending request fd fileSize =>
      rw [hplace] at hundisturbed
      exact hsharing.sending meanwhile hplace hundisturbed

/-- A step is taken by a worker that is ready for it, while the program runs. -/
theorem ready_of_step {action : ImageAction ι}
    (hstep : imagePoolStep arith magick pool action = some pool') :
    pool.ended = false ∧ Ready pool action := by
  unfold imagePoolStep at hstep
  split_ifs at hstep with hended
  refine ⟨by simpa using hended, ?_⟩
  cases action with
  | search worker request =>
    dsimp only at hstep
    split at hstep
    · assumption
    · simp at hstep
  | goOn worker meanwhile =>
    intro hplace
    simp [goOn, hplace] at hstep

/-- In every undisturbed interleaving the workers have what they rely on. -/
theorem sharing_of_run {descriptors : Finset ℤ} {actions : List (ImageAction ι)}
    (hdistinguishable : Distinguishable arith magick files requests)
    (hundisturbed : Guarded (imagePoolStep arith magick) (Undisturbed requests)
      (startImagePool files descriptors) actions)
    (hrun : run (imagePoolStep arith magick) (startImagePool files descriptors) actions =
      some pool) : Sharing arith magick files requests pool := by
  refine invariant_of_guarded (fun pool action pool' hsharing hguard hstep ↦ ?_)
    (sharing_startImagePool descriptors) hundisturbed hrun
  obtain ⟨hrunning, hready⟩ := ready_of_step hstep
  obtain ⟨next, hnext, hsharing'⟩ := hsharing.step hdistinguishable hrunning hready hguard
  rw [hstep, Option.some.injEq] at hnext
  exact hnext ▸ hsharing'

/-- A worker that goes on writes at most the cache file of its request. -/
theorem OneContent.goOn (honce : NamesFilesOnce (requests.map ImageRequest.image))
    (hone : OneContent pool.machine.files (requests.map ImageRequest.image))
    (hright : PlaceRight arith magick files requests pool (pool.place worker))
    (hstep : goOn arith magick pool worker meanwhile = some pool') :
    OneContent pool'.machine.files (requests.map ImageRequest.image) := by
  cases hplace : pool.place worker with
  | outside => simp [Cache.goOn, hplace] at hstep
  | found request idx =>
    simp only [Cache.goOn, hplace] at hstep
    obtain ⟨file, -, rfl⟩ := Option.map_eq_some_iff.mp hstep
    exact hone
  | missed request =>
    rw [hplace] at hright
    simp only [Cache.goOn, hplace] at hstep
    obtain ⟨opening, -, rfl⟩ := Option.map_eq_some_iff.mp hstep
    exact hone.write honce (List.mem_map_of_mem hright) fun _ ↦ openFile_files_of_ne opening
  | opened request fd =>
    rw [hplace] at hright
    simp only [Cache.goOn, hplace] at hstep
    split at hstep
    · rw [← Option.some.inj hstep]
      exact hone
    · split at hstep
      · rw [← Option.some.inj hstep]
        exact hone
      · rw [← Option.some.inj hstep]
        exact hone.write honce (List.mem_map_of_mem hright.1) fun _ ↦
          ImagePool.writeFile_files_of_ne meanwhile
  | writing request fd text =>
    rw [hplace] at hright
    simp only [Cache.goOn, hplace] at hstep
    rw [← Option.some.inj hstep]
    exact hone.write honce (List.mem_map_of_mem hright.1) fun _ ↦
      ImagePool.writeFile_files_of_ne text
  | written request fd =>
    simp only [Cache.goOn, hplace] at hstep
    split_ifs at hstep
    · rw [← Option.some.inj hstep]
      exact hone
    · rw [← Option.some.inj hstep]
      exact hone
  | sized request fd fileSize =>
    simp only [Cache.goOn, hplace] at hstep
    obtain ⟨cache, -, rfl⟩ := Option.map_eq_some_iff.mp hstep
    exact hone
  | sending request fd fileSize =>
    simp only [Cache.goOn, hplace] at hstep
    rw [← Option.some.inj hstep]
    exact hone

/-- In no undisturbed interleaving a file has two contents under the paths of the images. -/
theorem oneContent_of_pool {descriptors : Finset ℤ} {actions : List (ImageAction ι)}
    (hdistinguishable : Distinguishable arith magick files requests)
    (hundisturbed : Guarded (imagePoolStep arith magick) (Undisturbed requests)
      (startImagePool files descriptors) actions)
    (hone : OneContent files (requests.map ImageRequest.image))
    (hrun : run (imagePoolStep arith magick) (startImagePool files descriptors) actions =
      some pool) : OneContent pool.machine.files (requests.map ImageRequest.image) := by
  have hstep : ∀ (pool : ImagePool ι) (action : ImageAction ι) (pool' : ImagePool ι),
      Sharing arith magick files requests pool ∧
        OneContent pool.machine.files (requests.map ImageRequest.image) →
      Undisturbed requests pool action → imagePoolStep arith magick pool action = some pool' →
      Sharing arith magick files requests pool' ∧
        OneContent pool'.machine.files (requests.map ImageRequest.image) := by
    intro pool action pool' hbefore hguard hstep
    obtain ⟨hrunning, hready⟩ := ready_of_step hstep
    obtain ⟨next, hnext, hsharing⟩ := hbefore.1.step hdistinguishable hrunning hready hguard
    rw [hstep, Option.some.injEq] at hnext
    refine ⟨hnext ▸ hsharing, ?_⟩
    cases action with
    | search worker request =>
      rw [imagePoolStep, hrunning, if_neg Bool.false_ne_true] at hstep
      split at hstep
      · obtain ⟨cached, -, rfl⟩ := Option.map_eq_some_iff.mp hstep
        cases cached with
        | cached idx => exact hbefore.2
        | notCached => exact hbefore.2
      · simp at hstep
    | goOn worker meanwhile =>
      rw [imagePoolStep, hrunning, if_neg Bool.false_ne_true] at hstep
      exact hbefore.2.goOn meanwhile hdistinguishable.toNamesFilesOnce (hbefore.1.places worker)
        hstep
  exact (invariant_of_guarded hstep ⟨sharing_startImagePool descriptors, hone⟩ hundisturbed hrun).2

/-! ### A worker alone -/

/-- What a request of `imageStep` works on. -/
def ImagePool.server (pool : ImagePool ι) : ImageServer where
  machine := pool.machine
  pathOf := pool.pathOf
  answers := pool.answers
  ended := pool.ended

/-- The steps of a worker that nobody disturbs are a request of `imageStep`. -/
theorem exists_run_of_imageStep {request : ImageRequest} {server : ImageServer}
    (hrunning : pool.ended = false) (hplace : pool.place worker = .outside)
    (hstep : imageStep arith magick pool.server request = some server) :
    ∃ count, (run (imagePoolStep arith magick) pool
      (.search worker request :: List.replicate count (.goOn worker []))).map
        (fun pool' ↦ (pool'.server, pool'.place)) = some (server, pool.place) := by
  obtain ⟨machine, pathOf, place, inserted, answers, ended⟩ := pool
  simp only [ImagePool.server] at hrunning hplace hstep ⊢
  subst hrunning
  have hback : Function.update place worker .outside = place := by
    rw [← hplace, Function.update_eq_self]
  unfold imageStep at hstep
  rw [if_neg Bool.false_ne_true] at hstep
  obtain ⟨cached, hfind, hstep⟩ := Option.bind_eq_some_iff.mp hstep
  obtain ⟨opening, hopening, hstep⟩ := Option.bind_eq_some_iff.mp hstep
  obtain ⟨⟨machine', result⟩, hcall, rfl⟩ := Option.map_eq_some_iff.mp hstep
  dsimp only at hfind opening hopening hcall
  cases cached with
  | cached idx =>
    obtain ⟨file, hfile, heq⟩ := Option.map_eq_some_iff.mp hcall
    rw [Prod.mk.injEq] at heq
    obtain ⟨rfl, rfl⟩ := heq
    refine ⟨2, ?_⟩
    simp [run, imagePoolStep, goOn, hplace, hfind, hfile, hback, ImagePool.answer,
      ImagePool.moveTo, answerOf, pathsAfter]
  | notCached =>
    have hfd := (openingOf_spec pathOf hopening).2
    have hcall := (getImageToSend_notCached machine request.image opening).symm.trans hcall
    cases hsource : readSource magick
        (openFile machine request.image.cachePath opening).1.files request.image with
    | none =>
      simp only [hsource, Option.some.injEq, Prod.mk.injEq] at hcall
      obtain ⟨rfl, rfl⟩ := hcall
      refine ⟨2, ?_⟩
      simp [run, imagePoolStep, goOn, hplace, hfind, hopening, hsource, hback, ImagePool.answer,
        ImagePool.moveTo, answerOf]
    | some wand =>
      cases hwrite : magick.writeImage (adaptImage arith magick request.image wand)
          request.image.cachePath with
      | none =>
        simp only [hsource, hwrite, Option.some.injEq, Prod.mk.injEq] at hcall
        obtain ⟨rfl, rfl⟩ := hcall
        refine ⟨2, ?_⟩
        simp [run, imagePoolStep, goOn, hplace, hfind, hopening, hsource, hwrite, hback,
          ImagePool.answer, ImagePool.moveTo, answerOf]
      | some text =>
        simp only [hsource, hwrite, publishImage] at hcall
        rcases hfd with ⟨-, hfd⟩ | ⟨fd, hfd, hne, -, hpath⟩
        · rw [if_pos hfd, Option.some.injEq, Prod.mk.injEq] at hcall
          obtain ⟨rfl, rfl⟩ := hcall
          refine ⟨4, ?_⟩
          simp [run, imagePoolStep, goOn, hplace, hfind, hopening, hsource, hwrite, hback, hfd,
            ImagePool.answer, ImagePool.moveTo, ImagePool.writeFile, answerOf]
        · rw [hfd, if_neg hne] at hcall
          obtain ⟨cache, hinsert, heq⟩ := Option.map_eq_some_iff.mp hcall
          rw [Prod.mk.injEq] at heq
          obtain ⟨rfl, rfl⟩ := heq
          refine ⟨6, ?_⟩
          simp [run, imagePoolStep, goOn, hplace, hfind, hopening, hsource, hwrite, hback, hfd, hne,
            hpath, hinsert, ImagePool.answer, ImagePool.moveTo, ImagePool.writeFile, answerOf]

end Preservation

/-! ### Two workers that miss the same photo -/

deriving instance DecidableEq for ImageInfo, ImageRequest

section Decidable

variable {ι : Type*} [Fintype ι]

instance decidableUndisturbedAt (pool : ImagePool ι) (place : ImagePlace) :
    Decidable (UndisturbedAt pool place) :=
  match place with
  | .missed request => inferInstanceAs (Decidable (∀ fd ∈ request.opened, _))
  | .written _ _ | .sending _ _ _ => inferInstanceAs (Decidable (∀ _, _))
  | .sized _ _ _ => inferInstanceAs (Decidable (_ ∧ _))
  | .outside | .found .. | .opened .. | .writing .. => isTrue trivial

instance decidableUndisturbed (requests : List ImageRequest) (pool : ImagePool ι)
    (action : ImageAction ι) : Decidable (Undisturbed requests pool action) :=
  match action with
  | .search _ request => inferInstanceAs (Decidable (request ∈ requests))
  | .goOn worker _ => decidableUndisturbedAt pool (pool.place worker)

end Decidable

/-- Nothing is found in the cache at the start of the program. -/
theorem search_emptyCache {ι : Type*} [DecidableEq ι] {Wand : Type*} {arith : Arithmetic}
    {magick : MagickWand Wand} {pool : ImagePool ι} {worker : ι} (hrunning : pool.ended = false)
    (hplace : pool.place worker = .outside) (hcache : pool.machine.cache = emptyCache)
    (request : ImageRequest) :
    imagePoolStep arith magick pool (.search worker request) =
      some (pool.moveTo worker (.missed request)) := by
  have hfind := filled_emptyCache.find (Nat.zero_le _) (fun _ hmem ↦ absurd hmem List.not_mem_nil)
    (cachePath_ne_nil request.image)
  rw [List.findIdx?_nil, Option.elim_none] at hfind
  simp only [imagePoolStep, hrunning, if_neg Bool.false_ne_true, hplace, hcache, hfind,
    Option.map_some]

/-- A request for the photo, with the descriptor that is given out for it. -/
def photoWith (fd : ℤ) : ImageRequest where
  image := uncachedPhoto (bytes ".jpg") zero_notMem_jpg
  opened := some fd

/-- Both workers have searched the cache. -/
def bothMissed : ImagePool Bool :=
  ((startImagePool photoFiles {0, 1, 2}).moveTo true (.missed (photoWith 3))).moveTo false
    (.missed (photoWith 4))

/-- Both write the photo, one of them a little later, and then it is sent. -/
def bothWrite : List (ImageAction Bool) :=
  [.goOn true [], .goOn false [], .goOn true [], .goOn false [], .goOn true [], .goOn false [],
    .goOn true [], .goOn true [], .goOn false [], .goOn true [], .goOn false [], .goOn false []]

/-- Nothing of the photo goes out when it is sent while the other worker is writing it. -/
example : (run (imagePoolStep ieee copyingWand) bothMissed
    [.goOn true [], .goOn false [], .goOn true [], .goOn true [], .goOn true [], .goOn true [],
      .goOn false [], .goOn true []]).map (fun pool ↦ pool.answers.map Prod.snd) =
        some [.content 6 []] := by
  decide +kernel

end ImageApp.Cache
