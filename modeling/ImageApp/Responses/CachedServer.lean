import ImageApp.Cache.FalseHits
import ImageApp.Cache.ServedImages
import ImageApp.Foundations.DecimalPrefixes
import ImageApp.Queries.Transparency
import ImageApp.Requests.AcceptSafety
import ImageApp.Requests.RoundTrip
import ImageApp.Server.Messages

/-!
# From a message to its answer

What `handle_client` does with a received message: `parse_request` reads it, the database or the
cache of queries gives the dimensions of the device, the cache of images or MagickWand gives the
image, and a header and a body are sent. `serveVisit` puts the models of these parts together.

`responses_of_run` compares the server with one that has neither cache: for every sequence of
messages, both send the same bytes. Its condition on the images is the one of the cache of images
alone, for the images that the messages come to. `Coherent` is the state in between: both caches
stand for what the database and the sources have.
-/

set_option autoImplicit false
set_option relaxedAutoImplicit false

namespace ImageApp.Responses

open Foundations.CStrings Foundations.DecimalPrefixes Foundations.DecimalRows
  Foundations.GuardedRuns Server Cache Queries Requests

/-! ### What a message asks for -/

/-- An image as a message asks for it, with the first accepted type. The texts are C strings. -/
structure ImageWish where
  cmd : RqstStat
  imageName : List Byte
  ext : List Byte
  userAgent : List Byte
  quality : ℚ
  extension : ExtImage
  imageName_zero : (0 : Byte) ∉ imageName
  ext_zero : (0 : Byte) ∉ ext

/-- What `parse_request` makes of a message. -/
inductive Wish
  | image (wish : ImageWish)
  | icon
  | notCorrect

/-- The name in a cache path is a C string. -/
theorem zero_notMem_buildImageNameCache (arith : Arithmetic) (beyond : List Byte)
    {imageName : List Byte} (himageName : (0 : Byte) ∉ imageName) (quality : ℚ)
    (dimensions : Dimensions) :
    (0 : Byte) ∉ buildImageNameCache arith beyond imageName quality dimensions.width
      dimensions.height dimensions.colors := by
  -- The numbers are those of a key without a name.
  let key : CacheKey :=
    { imageName := []
      ext := []
      quality := quality
      width := dimensions.width
      height := dimensions.height
      colors := dimensions.colors
      beyond := []
      accepted := ⟨[], rfl⟩ }
  obtain ⟨first, digits, hnumbers, hfirst, hdigits⟩ := key.numbers_spec arith
  have hkey : key.numbers arith = qualityText arith quality ++ numeral dimensions.width.toNat ++
      numeral dimensions.height.toNat ++ numeral dimensions.colors.toNat := rfl
  have hsplit : buildImageNameCache arith beyond imageName quality dimensions.width
      dimensions.height dimensions.colors = imageName ++ first :: dot :: digits := by
    rw [buildImageNameCache_eq, ← hnumbers, hkey]
    simp only [List.append_assoc]
  rw [hsplit, List.mem_append, List.mem_cons, List.mem_cons, not_or, not_or, not_or]
  refine ⟨himageName, ?_, by decide, hdigits 0 (by decide)⟩
  rcases hfirst with rfl | rfl
  · decide
  · decide

/-- The image that `handle_client` describes for a wish and the dimensions of the device. -/
def ImageWish.image (arith : Arithmetic) (beyond : List Byte) (wish : ImageWish)
    (dimensions : Dimensions) : ImageInfo where
  width := dimensions.width
  height := dimensions.height
  colors := dimensions.colors
  imageName := wish.imageName
  cacheName := buildImageNameCache arith beyond wish.imageName wish.quality dimensions.width
    dimensions.height dimensions.colors
  ext := wish.ext
  quality := wish.quality
  extension := wish.extension
  cached := .notCached
  cacheName_zero := zero_notMem_buildImageNameCache arith beyond wish.imageName_zero _ dimensions
  ext_zero := wish.ext_zero

/-- What the digits of the quality are followed by on the heap does not show in the image. -/
theorem ImageWish.image_eq (arith : Arithmetic) (beyond : List Byte) (wish : ImageWish)
    (dimensions : Dimensions) :
    wish.image arith beyond dimensions = wish.image arith [] dimensions := by
  have hname := buildImageNameCache_eq arith beyond wish.imageName wish.quality dimensions.width
    dimensions.height dimensions.colors
  rw [← buildImageNameCache_eq arith []] at hname
  simp only [ImageWish.image, hname]

section Serve

variable {Wand : Type*} (arith : Arithmetic) (strtof : List Byte → ℚ × Bool)
  (magick : MagickWand Wand) (db : List Byte → Option DeviceRow) (icon : List Byte) (pages : Pages)

/-- The first entry of the list that `get_list_accept_image` makes of a line. -/
def firstAccepted (acceptLine : List Byte) : Option (ℚ × ExtImage) :=
  if (acceptEnd arith strtof acceptLine).1 = .parsed then
    (acceptEnd arith strtof acceptLine).2.head?
  else none

/-- `parse_request` with the list of accepted types, `none` where it does not come to a defined end.
-/
def wishOf (message : List Byte) : Option Wish :=
  (parseRequest message).bind fun (ret, request) ↦
    if ret = .requestReceived then
      request.ext.bind fun ext ↦
        request.userAgent.bind fun userAgent ↦
          (request.acceptLine.bind (firstAccepted arith strtof)).bind fun (quality, extension) ↦
            if hzero : (0 : Byte) ∉ request.imageName ∧ (0 : Byte) ∉ ext then
              some (.image ⟨request.cmd, request.imageName, ext, userAgent, quality, extension,
                hzero.1, hzero.2⟩)
            else none
    else if ret = .iconRequested then some .icon
    else some .notCorrect

/-! ### The server -/

/-- A message, with the descriptor that the system gives out for a cache file unless it refuses, and
what lies behind the digits of the quality on the heap. -/
structure Visit where
  message : List Byte
  opened : Option ℤ
  beyond : List Byte

/-- The two caches, and what was sent for each message. -/
structure CachedServer where
  queries : QueryCache
  images : ImageServer
  responses : List (List Byte)

/-- The bytes for an answer: the header for the size, and the content for the method `GET`. -/
def answerBytes (cmd : RqstStat) : ImageAnswer → Option (List Byte)
  | .content fileSize text =>
    some (buildMessage fileSize.toNat true [] ++ if cmd = .getCmd then text else [])
  | .notPresent => some (sendBadRequest pages)
  | .ended => none

/-- The request for an image that a wish comes to. -/
def ImageWish.request (wish : ImageWish) (visit : Visit) (dimensions : Dimensions) :
    ImageRequest where
  image := wish.image arith visit.beyond dimensions
  opened := visit.opened

/-- `handle_client` on a message. -/
def serveVisit (server : CachedServer) (visit : Visit) : Option CachedServer :=
  if server.images.ended then some server
  else
    (wishOf arith strtof visit.message).bind fun
      | .image wish =>
        (retrieveDimFromDB arith visit.beyond db server.queries
          ⟨wish.userAgent, wish.imageName, wish.quality⟩).bind fun retrieval ↦
            (imageStep arith magick server.images
              (wish.request arith visit retrieval.dimensions)).map fun images ↦
                { queries := retrieval.queries
                  images := images
                  responses := server.responses ++
                    (images.answers.getLast?.bind fun answer ↦
                      answerBytes pages wish.cmd answer.2).toList }
      | .icon => some { server with responses := server.responses ++ [sendImage icon .getCmd] }
      | .notCorrect => some { server with responses := server.responses ++ [sendBadRequest pages] }

/-- The server before the first message. -/
def startCachedServer (files : List Byte → Option (List Byte)) (descriptors : Finset ℤ) :
    CachedServer where
  queries := emptyQueries
  images := startServer files descriptors
  responses := []

/-! ### A server without caches -/

/-- The image that a message comes to when the database is asked. -/
def ImageWish.askedImage (wish : ImageWish) : ImageInfo :=
  wish.image arith [] (dimensionsOf (db (deviceQuery wish.userAgent)))

/-- The bytes for an adapted image, or for the lack of its source; `none` when the adapted image
cannot be written. -/
def adaptedBytes (cmd : RqstStat) : Option (Option (List Byte)) → Option (List Byte)
  | some (some text) => some (sendImage text cmd)
  | some none => none
  | none => some (sendBadRequest pages)

/-- What is sent for a message when the database is asked and the image adapted every time. -/
def plainResponse (files : List Byte → Option (List Byte)) (message : List Byte) :
    Option (List Byte) :=
  (wishOf arith strtof message).bind fun
    | .image wish =>
      adaptedBytes pages wish.cmd (adaptedContent arith magick files (wish.askedImage arith db))
    | .icon => some (sendImage icon .getCmd)
    | .notCorrect => some (sendBadRequest pages)

/-- The image of a visit, if it asks for one. -/
def imageRequest (visit : Visit) : Option ImageRequest :=
  (wishOf arith strtof visit.message).bind fun
    | .image wish =>
      some (wish.request arith visit (dimensionsOf (db (deviceQuery wish.userAgent))))
    | .icon | .notCorrect => none

/-- The messages can be parsed and their lines of types split, the user agents fit into their
queries, and the images can be cached. -/
structure Servable (files : List Byte → Option (List Byte)) (visits : List Visit) : Prop where
  parsed : ∀ visit ∈ visits, ∃ parsed, parseRequest visit.message = some parsed ∧
    ∀ line ∈ parsed.2.acceptLine, LineSplitsWell line
  proper : ∀ visit ∈ visits, ∀ wish, wishOf arith strtof visit.message = some (.image wish) →
    ProperAgent wish.userAgent
  cacheable : Cacheable arith magick files (visits.filterMap (imageRequest arith strtof db))

/-- The system gives out descriptors that are not open. -/
def OpensUnused (server : CachedServer) (visit : Visit) : Prop :=
  ∀ fd ∈ visit.opened, 0 ≤ fd ∧ fd ∉ server.images.machine.descriptors

variable {arith strtof magick db icon pages} {files : List Byte → Option (List Byte)}
  {visits : List Visit} {server : CachedServer}

/-- The name and the extension that `parse_request` returns are C strings. -/
theorem zero_notMem_of_parseRequest {message : List Byte} {request : ParsedRequest}
    (hparse : parseRequest message = some (.requestReceived, request)) :
    ∃ ext acceptLine userAgent, request.ext = some ext ∧ request.acceptLine = some acceptLine ∧
      request.userAgent = some userAgent ∧ (0 : Byte) ∉ request.imageName ∧ (0 : Byte) ∉ ext := by
  obtain ⟨firstLine, -, hparse⟩ := Option.bind_eq_some_iff.mp hparse
  obtain ⟨name, hname, hparse⟩ := Option.bind_eq_some_iff.mp hparse
  cases name with
  | emptyPath | iconRequested | messageNotCorrect => simp at hparse
  | imageRequested imageName ext =>
    obtain ⟨acceptLine, -, hparse⟩ := Option.bind_eq_some_iff.mp hparse
    obtain ⟨userAgent, -, hparse⟩ := Option.map_eq_some_iff.mp hparse
    rw [Prod.mk.injEq] at hparse
    rw [← hparse.2]
    have haccepted := acceptedName_of_parseName hname
    exact ⟨ext, acceptLine, userAgent, rfl, rfl, rfl, haccepted.zero_notMem,
      haccepted.zero_notMem_ext⟩

/-- A message that `parse_request` accepts is an image that is asked for, if its list of types is
made. -/
theorem exists_wishOf {message acceptLine : List Byte} {request : ParsedRequest}
    {value : ℚ × ExtImage} (hparse : parseRequest message = some (.requestReceived, request))
    (hline : request.acceptLine = some acceptLine)
    (hvalue : firstAccepted arith strtof acceptLine = some value) :
    ∃ wish, wishOf arith strtof message = some (.image wish) ∧ wish.cmd = request.cmd ∧
      wish.imageName = request.imageName ∧ request.ext = some wish.ext ∧
      request.userAgent = some wish.userAgent ∧ (wish.quality, wish.extension) = value := by
  obtain ⟨ext, -, userAgent, hext, -, hagent, hzero⟩ := zero_notMem_of_parseRequest hparse
  refine ⟨⟨request.cmd, request.imageName, ext, userAgent, value.1, value.2, hzero.1, hzero.2⟩, ?_,
    rfl, rfl, hext, hagent, rfl⟩
  simp only [wishOf, hparse, hext, hline, hagent, hvalue, Option.bind_some, if_pos, dif_pos hzero]

/-- A message that can be parsed, with a line of types that can be split, has a meaning. -/
theorem exists_meaning {message : List Byte} {parsed : RqstStat × ParsedRequest}
    (hparse : parseRequest message = some parsed)
    (hsplits : ∀ line ∈ parsed.2.acceptLine, LineSplitsWell line) :
    ∃ meaning, wishOf arith strtof message = some meaning := by
  obtain ⟨ret, request⟩ := parsed
  by_cases hret : ret = .requestReceived
  · rw [hret] at hparse
    obtain ⟨-, acceptLine, -, -, hline, -⟩ := zero_notMem_of_parseRequest hparse
    have hparsed : (acceptEnd arith strtof acceptLine).1 = .parsed :=
      (acceptEnd_eq_parsed_iff acceptLine).mpr (hsplits acceptLine hline)
    have hvalue : firstAccepted arith strtof acceptLine =
        some ((acceptEnd arith strtof acceptLine).2.head (ne_nil_of_acceptEnd hparsed)) := by
      rw [firstAccepted, if_pos hparsed, List.head?_eq_some_head]
    obtain ⟨wish, hwish, -⟩ := exists_wishOf hparse hline hvalue
    exact ⟨.image wish, hwish⟩
  · rw [wishOf, hparse, Option.bind_some]
    dsimp only
    rw [if_neg hret]
    split_ifs
    · exact ⟨.icon, rfl⟩
    · exact ⟨.notCorrect, rfl⟩

/-! ### What the caches stand for -/

/-- Both caches stand for what the database and the sources have. -/
structure Coherent (arith : Arithmetic) (strtof : List Byte → ℚ × Bool) (magick : MagickWand Wand)
    (db : List Byte → Option DeviceRow) (files : List Byte → Option (List Byte))
    (visits : List Visit) (server : CachedServer) : Prop where
  mirrors : ∃ slots, Mirrors db server.queries slots
  serving : ∃ inserted served,
    Serving arith magick files (visits.filterMap (imageRequest arith strtof db)) server.images
      inserted served

theorem coherent_startCachedServer (descriptors : Finset ℤ) :
    Coherent arith strtof magick db files visits (startCachedServer files descriptors) where
  mirrors := ⟨fun _ ↦ none, fun _ ↦ .free⟩
  serving := ⟨[], [], serving_startServer descriptors⟩

/-- The dimensions of a device, from the cache of queries or from the database. -/
theorem exists_retrieval (hmirrors : ∃ slots, Mirrors db server.queries slots) (wish : ImageWish)
    (hproper : ProperAgent wish.userAgent) (beyond : List Byte) :
    ∃ retrieval, retrieveDimFromDB arith beyond db server.queries
        ⟨wish.userAgent, wish.imageName, wish.quality⟩ = some retrieval ∧
      retrieval.dimensions = dimensionsOf (db (deviceQuery wish.userAgent)) ∧
      ∃ slots, Mirrors db retrieval.queries slots := by
  obtain ⟨slots, hmirrors⟩ := hmirrors
  let request : DeviceRequest := ⟨⟨wish.userAgent, wish.imageName, wish.quality⟩, hproper⟩
  obtain ⟨retrieval, hretrieve, hdimensions, hcases⟩ :=
    retrieveDimFromDB_spec arith beyond hmirrors request
  refine ⟨retrieval, hretrieve, hdimensions, ?_⟩
  rcases hcases with ⟨hqueries, -⟩ | ⟨-, -, hqueries⟩
  · exact ⟨slots, hqueries ▸ hmirrors⟩
  · rw [hqueries]
    exact ⟨_, mirrors_insert hmirrors hproper⟩

/-- The bytes for a right answer are those of the server without caches. -/
theorem answerBytes_of_answerRight {visit : Visit} {wish : ImageWish} {answer : ImageAnswer}
    (hwish : wishOf arith strtof visit.message = some (.image wish))
    (hright : AnswerRight arith magick files
      (wish.request arith visit (dimensionsOf (db (deviceQuery wish.userAgent)))) answer) :
    if answer = .ended then
      visit.opened = none ∨
        plainResponse arith strtof magick db icon pages files visit.message = none
    else
      ∃ text, plainResponse arith strtof magick db icon pages files visit.message = some text ∧
        answerBytes pages wish.cmd answer = some text := by
  have himage : (wish.request arith visit (dimensionsOf (db (deviceQuery wish.userAgent)))).image =
      wish.askedImage arith db := wish.image_eq arith visit.beyond _
  have hplain : plainResponse arith strtof magick db icon pages files visit.message =
      adaptedBytes pages wish.cmd
        (adaptedContent arith magick files (wish.askedImage arith db)) := by
    rw [plainResponse, hwish, Option.bind_some]
  rw [hplain]
  cases answer with
  | content fileSize text =>
    obtain ⟨hcontent, hsize⟩ := hright
    rw [himage] at hcontent
    rw [hcontent, hsize]
    exact ⟨_, rfl, rfl⟩
  | notPresent =>
    rw [AnswerRight, himage] at hright
    rw [hright]
    exact ⟨_, rfl, rfl⟩
  | ended =>
    rw [AnswerRight, himage] at hright
    rcases hright with hrefused | hfailed
    · exact Or.inl hrefused
    · rw [hfailed]
      exact Or.inr rfl

/-- The response to a visit is the one of the server without caches, unless the program ends. -/
def VisitAnswered (arith : Arithmetic) (strtof : List Byte → ℚ × Bool) (magick : MagickWand Wand)
    (db : List Byte → Option DeviceRow) (icon : List Byte) (pages : Pages)
    (files : List Byte → Option (List Byte)) (visit : Visit) (before after : CachedServer) : Prop :=
  if after.images.ended then
    after.responses = before.responses ∧ (visit.opened = none ∨
      plainResponse arith strtof magick db icon pages files visit.message = none)
  else
    ∃ text, plainResponse arith strtof magick db icon pages files visit.message = some text ∧
      after.responses = before.responses ++ [text]

/-- A visit that asks for an image keeps the caches coherent, and its answer is right. -/
theorem Coherent.serve_image (hservable : Servable arith strtof magick db files visits)
    (hcoherent : Coherent arith strtof magick db files visits server)
    (hrunning : server.images.ended = false) {visit : Visit} (hvisit : visit ∈ visits)
    (hunused : OpensUnused server visit) {wish : ImageWish}
    (hwish : wishOf arith strtof visit.message = some (.image wish)) :
    ∃ server' answer, serveVisit arith strtof magick db icon pages server visit = some server' ∧
      Coherent arith strtof magick db files visits server' ∧
      server'.images.answers.getLast?.map Prod.snd = some answer ∧
      (server'.images.ended = true ↔ answer = .ended) ∧
      server'.responses = server.responses ++ (answerBytes pages wish.cmd answer).toList ∧
      AnswerRight arith magick files
        (wish.request arith visit (dimensionsOf (db (deviceQuery wish.userAgent)))) answer := by
  obtain ⟨retrieval, hretrieve, hdimensions, hmirrors⟩ :=
    @exists_retrieval arith _ _ hcoherent.mirrors wish
      (hservable.proper visit hvisit wish hwish) visit.beyond
  obtain ⟨inserted, served, hserving⟩ := hcoherent.serving
  set request := wish.request arith visit (dimensionsOf (db (deviceQuery wish.userAgent)))
    with hrequest
  have hmem : request ∈ visits.filterMap (imageRequest arith strtof db) := by
    refine List.mem_filterMap.mpr ⟨visit, hvisit, ?_⟩
    rw [imageRequest, hwish, Option.bind_some]
  obtain ⟨images, inserted', hstep, hserving'⟩ :=
    hserving.step hservable.cacheable hmem hunused
  obtain ⟨answer, hanswers, hended⟩ := answers_imageStep hrunning hstep
  have hright := hserving'.answers request answer (by simp [hanswers])
  refine ⟨⟨retrieval.queries, images, server.responses ++
    (answerBytes pages wish.cmd answer).toList⟩, answer, ?_, ⟨hmirrors, inserted', _, hserving'⟩,
    ?_, hended, rfl, hright⟩
  · rw [serveVisit, hrunning, if_neg Bool.false_ne_true, hwish, Option.bind_some]
    simp only [hretrieve, Option.bind_some, hdimensions, ← hrequest, hstep, Option.map_some,
      hanswers, List.getLast?_concat]
  · simp [hanswers]

/-- Every visit keeps the caches coherent, and is answered. -/
theorem Coherent.step (hservable : Servable arith strtof magick db files visits)
    (hcoherent : Coherent arith strtof magick db files visits server)
    (hrunning : server.images.ended = false) {visit : Visit} (hvisit : visit ∈ visits)
    (hunused : OpensUnused server visit) :
    ∃ server', serveVisit arith strtof magick db icon pages server visit = some server' ∧
      Coherent arith strtof magick db files visits server' ∧
      VisitAnswered arith strtof magick db icon pages files visit server server' := by
  obtain ⟨parsed, hparse, hsplits⟩ := hservable.parsed visit hvisit
  obtain ⟨meaning, hmeaning⟩ := @exists_meaning arith strtof _ _ hparse hsplits
  -- A page or the icon is sent without the caches.
  have hfixed : ∀ text,
      serveVisit arith strtof magick db icon pages server visit =
          some { server with responses := server.responses ++ [text] } →
        plainResponse arith strtof magick db icon pages files visit.message = some text →
        ∃ server', serveVisit arith strtof magick db icon pages server visit = some server' ∧
          Coherent arith strtof magick db files visits server' ∧
          VisitAnswered arith strtof magick db icon pages files visit server server' := by
    intro text hserve hplain
    refine ⟨_, hserve, ⟨hcoherent.mirrors, hcoherent.serving⟩, ?_⟩
    rw [VisitAnswered, hrunning, if_neg Bool.false_ne_true]
    exact ⟨text, hplain, rfl⟩
  cases meaning with
  | notCorrect =>
    apply hfixed (sendBadRequest pages)
    · rw [serveVisit, hrunning, if_neg Bool.false_ne_true, hmeaning, Option.bind_some]
    · rw [plainResponse, hmeaning, Option.bind_some]
  | icon =>
    apply hfixed (sendImage icon .getCmd)
    · rw [serveVisit, hrunning, if_neg Bool.false_ne_true, hmeaning, Option.bind_some]
    · rw [plainResponse, hmeaning, Option.bind_some]
  | image wish =>
    clear hfixed
    obtain ⟨server', answer, hserve, hcoherent', -, hended, hresponses, hright⟩ :=
      @Coherent.serve_image _ _ _ _ _ icon pages _ _ _ hservable hcoherent hrunning _ hvisit hunused
        _ hmeaning
    refine ⟨server', hserve, hcoherent', ?_⟩
    have hbytes := @answerBytes_of_answerRight _ _ _ _ _ icon pages _ _ _ _ hmeaning hright
    rw [VisitAnswered, hresponses]
    by_cases hlast : answer = .ended
    · rw [if_pos hlast] at hbytes
      rw [hended.mpr hlast, if_pos rfl, hlast]
      exact ⟨List.append_nil _, hbytes⟩
    · rw [if_neg hlast] at hbytes
      obtain ⟨text, htext, hsent⟩ := hbytes
      rw [if_neg (fun hend ↦ hlast (hended.mp hend)), hsent]
      exact ⟨text, htext, rfl⟩

/-- The responses of a server that goes on are those of the server without caches. A server that has
ended has sent them up to a visit for which no file could be opened or written. -/
def AllAnswered (arith : Arithmetic) (strtof : List Byte → ℚ × Bool) (magick : MagickWand Wand)
    (db : List Byte → Option DeviceRow) (icon : List Byte) (pages : Pages)
    (files : List Byte → Option (List Byte)) (visits : List Visit) (ended : Bool)
    (texts : List (List Byte)) : Prop :=
  if ended then
    ∃ first visit last, visits = first ++ visit :: last ∧
      texts.map some = first.map (fun visit ↦
        plainResponse arith strtof magick db icon pages files visit.message) ∧
      (visit.opened = none ∨
        plainResponse arith strtof magick db icon pages files visit.message = none)
  else
    texts.map some = visits.map fun visit ↦
      plainResponse arith strtof magick db icon pages files visit.message

/-- Once the program has ended nothing happens any more. -/
theorem run_of_ended (hended : server.images.ended = true) (rest : List Visit) :
    run (serveVisit arith strtof magick db icon pages) server rest = some server := by
  induction rest with
  | nil => rfl
  | cons visit rest ih =>
    rw [run_cons, serveVisit, if_pos hended, Option.bind_some, ih]

/-- A coherent server goes on to the end of its visits. -/
theorem exists_run_coherent (hservable : Servable arith strtof magick db files visits)
    (hcoherent : Coherent arith strtof magick db files visits server)
    (hrunning : server.images.ended = false) {rest : List Visit}
    (hrest : ∀ visit ∈ rest, visit ∈ visits)
    (hunused : Guarded (serveVisit arith strtof magick db icon pages) OpensUnused server rest) :
    ∃ server' texts, run (serveVisit arith strtof magick db icon pages) server rest = some server' ∧
      server'.responses = server.responses ++ texts ∧
      AllAnswered arith strtof magick db icon pages files rest server'.images.ended texts := by
  induction rest generalizing server with
  | nil =>
    refine ⟨server, [], rfl, (List.append_nil _).symm, ?_⟩
    rw [AllAnswered, hrunning, if_neg Bool.false_ne_true]
    rfl
  | cons visit rest ih =>
    obtain ⟨next, hstep, hcoherent', hanswered⟩ := @Coherent.step _ _ _ _ _ icon pages _ _ _
      hservable hcoherent hrunning _ (hrest visit List.mem_cons_self) hunused.1
    rw [VisitAnswered] at hanswered
    cases hended : next.images.ended with
    | true =>
      rw [hended, if_pos rfl] at hanswered
      refine ⟨next, [], run_cons_eq_some.mpr ⟨next, hstep, run_of_ended hended rest⟩, ?_, ?_⟩
      · rw [hanswered.1, List.append_nil]
      · rw [AllAnswered, hended, if_pos rfl]
        exact ⟨[], visit, rest, rfl, rfl, hanswered.2⟩
    | false =>
      rw [hended, if_neg Bool.false_ne_true] at hanswered
      obtain ⟨text, hplain, hresponses⟩ := hanswered
      obtain ⟨server', texts, hrun, htexts, hall⟩ := ih hcoherent' hended
        (fun other hother ↦ hrest other (List.mem_cons_of_mem _ hother)) (hunused.2 next hstep)
      refine ⟨server', text :: texts, run_cons_eq_some.mpr ⟨next, hstep, hrun⟩, ?_, ?_⟩
      · rw [htexts, hresponses, List.append_assoc, List.singleton_append]
      · rw [AllAnswered] at hall ⊢
        split_ifs at hall ⊢ with hlast
        · obtain ⟨first, failed, last, hsplit, hfirst, hfails⟩ := hall
          refine ⟨visit :: first, failed, last, by rw [hsplit, List.cons_append], ?_, hfails⟩
          rw [List.map_cons, List.map_cons, hfirst, hplain]
        · rw [List.map_cons, List.map_cons, hall, hplain]

/-- The caches do not show: for every sequence of messages whose images can be cached, the server
sends what a server sends that asks the database and adapts the image for each of them. It ends
before the last message only when a cache file cannot be opened or written. -/
theorem responses_of_run (descriptors : Finset ℤ)
    (hservable : Servable arith strtof magick db files visits)
    (hunused : Guarded (serveVisit arith strtof magick db icon pages) OpensUnused
      (startCachedServer files descriptors) visits) :
    ∃ server, run (serveVisit arith strtof magick db icon pages)
        (startCachedServer files descriptors) visits = some server ∧
      AllAnswered arith strtof magick db icon pages files visits server.images.ended
        server.responses := by
  obtain ⟨server, texts, hrun, hresponses, hall⟩ := exists_run_coherent hservable
    (coherent_startCachedServer descriptors) rfl (fun _ hvisit ↦ hvisit) hunused
  have htexts : server.responses = texts := hresponses
  exact ⟨server, hrun, htexts ▸ hall⟩

/-- A visit opens at most what the system gives out for it. -/
theorem descriptors_serveVisit {server' : CachedServer} {visit : Visit}
    (hstep : serveVisit arith strtof magick db icon pages server visit = some server') {fd : ℤ}
    (hfd : fd ∈ server'.images.machine.descriptors) :
    fd ∈ server.images.machine.descriptors ∨ fd ∈ visit.opened := by
  unfold serveVisit at hstep
  split_ifs at hstep with hended
  · rw [Option.some.injEq] at hstep
    exact Or.inl (hstep ▸ hfd)
  · obtain ⟨meaning, -, hstep⟩ := Option.bind_eq_some_iff.mp hstep
    cases meaning with
    | notCorrect | icon =>
      rw [Option.some.injEq] at hstep
      rw [← hstep] at hfd
      exact Or.inl hfd
    | image wish =>
      obtain ⟨retrieval, -, hstep⟩ := Option.bind_eq_some_iff.mp hstep
      obtain ⟨images, himages, rfl⟩ := Option.map_eq_some_iff.mp hstep
      rcases Finset.mem_union.mp (descriptors_imageStep himages hfd) with hnew | hold
      · exact Or.inr (Option.mem_toFinset.mp hnew)
      · exact Or.inl hold

/-- Different descriptors that are not open at the start can be given out in every run. -/
theorem guarded_opensUnused {rest : List Visit}
    (hnonneg : ∀ fd ∈ rest.filterMap Visit.opened, 0 ≤ fd)
    (hnodup : (rest.filterMap Visit.opened).Nodup)
    (hfresh : ∀ fd ∈ rest.filterMap Visit.opened, fd ∉ server.images.machine.descriptors) :
    Guarded (serveVisit arith strtof magick db icon pages) OpensUnused server rest := by
  refine @guarded_of_nodup _ _ _ _ (fun server ↦ {fd | fd ∈ server.images.machine.descriptors})
    Visit.opened _ (fun _ _ _ hstep _ hfd ↦ descriptors_serveVisit hstep hfd) _ ?_ _ hnodup hfresh
  intro server visit hvisit hunused fd hfd
  exact ⟨hnonneg fd (List.mem_filterMap.mpr ⟨visit, hvisit, hfd⟩), hunused fd hfd⟩

end Serve

/-! ### A photo that is asked for twice -/

theorem zero_notMem_photo : (0 : Byte) ∉ bytes "photo" := by
  decide

/-- What the photo is asked for with. -/
def photoWish : ImageWish where
  cmd := .getCmd
  imageName := bytes "photo"
  ext := bytes ".jpg"
  userAgent := bytes "browser"
  quality := 1
  extension := .allExt
  imageName_zero := zero_notMem_photo
  ext_zero := zero_notMem_jpg

/-- A request for the page itself, which is answered with the icon. -/
def iconText : List Byte :=
  bytes "GET / HTTP/1.1\r\nUser-Agent: browser\r\nAccept: image/*\r\nConnection: close\r\n\r\n"

/-- The message that is received for it. -/
def iconMessage : List Byte :=
  padded iconText

/-- The photo, the icon, and the photo again, for a device that is not in the database. -/
def photoVisits : List Visit :=
  [⟨photoRequest.slot, some 3, []⟩, ⟨iconMessage, none, []⟩, ⟨photoRequest.slot, none, []⟩]

theorem parseRequest_photoSlot :
    parseRequest photoRequest.slot = some (.requestReceived, photoRequest.parsed) := by
  decide +kernel

theorem parseRequest_icon :
    parseRequest iconMessage = some (.iconRequested, ⟨.getCmd, iconName, .literal, none, none,
      none⟩) := by
  decide +kernel

theorem acceptEnd_photo :
    acceptEnd ieee decimalPrefix (bytes "image/*") = (.parsed, [(1, .allExt)]) := by
  decide +kernel

theorem wishOf_photo : wishOf ieee decimalPrefix photoRequest.slot = some (.image photoWish) := by
  have hvalue : firstAccepted ieee decimalPrefix (bytes "image/*") = some (1, .allExt) := by
    rw [firstAccepted, acceptEnd_photo]
    rfl
  have hext : photoRequest.parsed.ext = some (bytes ".jpg") := by decide
  have hagent : photoRequest.parsed.userAgent = some (bytes "browser") := rfl
  have hline : photoRequest.parsed.acceptLine = some (bytes "image/*") := rfl
  rw [wishOf, parseRequest_photoSlot, Option.bind_some]
  dsimp only
  rw [if_pos rfl, hext, Option.bind_some, hagent, Option.bind_some, hline, Option.bind_some, hvalue,
    Option.bind_some]
  exact dif_pos ⟨zero_notMem_photo, zero_notMem_jpg⟩

theorem wishOf_icon : wishOf ieee decimalPrefix iconMessage = some .icon := by
  rw [wishOf, parseRequest_icon, Option.bind_some]
  rfl

theorem servable_photoVisits :
    Servable ieee decimalPrefix copyingWand (fun _ ↦ none) photoFiles photoVisits := by
  have hrequests : photoVisits.filterMap (imageRequest ieee decimalPrefix fun _ ↦ none) =
      [photoWish.request ieee ⟨photoRequest.slot, some 3, []⟩ noDimensions,
        photoWish.request ieee ⟨photoRequest.slot, none, []⟩ noDimensions] := by
    simp only [photoVisits, List.filterMap_cons, List.filterMap_nil, imageRequest, wishOf_photo,
      wishOf_icon, Option.bind_some]
    rfl
  constructor
  · have hsplits : LineSplitsWell (bytes "image/*") :=
      (@acceptEnd_eq_parsed_iff ieee decimalPrefix _).mp (by rw [acceptEnd_photo])
    have hphoto : ∀ line ∈ photoRequest.parsed.acceptLine, LineSplitsWell line := by
      intro line hline
      rwa [← Option.some.inj hline]
    simp only [photoVisits, List.forall_mem_cons]
    exact ⟨⟨_, parseRequest_photoSlot, hphoto⟩, ⟨_, parseRequest_icon, by simp⟩,
      ⟨_, parseRequest_photoSlot, hphoto⟩, by simp⟩
  · intro visit hvisit wish hwish
    have hphoto : wish = photoWish := by
      simp only [photoVisits, List.mem_cons, List.not_mem_nil, or_false] at hvisit
      rcases hvisit with rfl | rfl | rfl
      · rw [wishOf_photo, Option.some.injEq, Wish.image.injEq] at hwish
        exact hwish.symm
      · rw [wishOf_icon] at hwish
        simp at hwish
      · rw [wishOf_photo, Option.some.injEq, Wish.image.injEq] at hwish
        exact hwish.symm
    rw [hphoto]
    exact ⟨by decide, by decide, by decide, by decide⟩
  · rw [hrequests]
    exact
      { toNamesFilesOnce := namesFilesOnce_of_plain (by decide +kernel) (by decide +kernel)
        short := by decide +kernel
        room := by decide +kernel
        count := by decide +kernel
        separate := by decide +kernel }

theorem responses_photoVisits :
    ∃ server, run (serveVisit ieee decimalPrefix copyingWand (fun _ ↦ none) (bytes "icon")
        htmlResponse) (startCachedServer photoFiles {0, 1, 2}) photoVisits = some server ∧
      AllAnswered ieee decimalPrefix copyingWand (fun _ ↦ none) (bytes "icon") htmlResponse
        photoFiles photoVisits server.images.ended server.responses :=
  responses_of_run {0, 1, 2} servable_photoVisits
    (guarded_opensUnused (by decide) (by decide) (by decide))

end ImageApp.Responses
