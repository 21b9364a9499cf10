import ImageApp.Cache.ServedImages

/-!
# Descriptors that stay open

A request for an image that is not found in the cache opens its cache file, also when the source
turns out to be absent, and nothing closes a descriptor of a cache file. `descriptors_of_run` says
which descriptors are open after any sequence of requests: those that were open before it, and one
for each of these requests to which the system gave one. The cache knows at most 128 of them, and
`unknown_of_run` counts the others.
-/

set_option autoImplicit false
set_option relaxedAutoImplicit false

namespace ImageApp.Cache

open Foundations.CStrings Foundations.GuardedRuns Server

/-! ### What is opened -/

/-- The descriptor that the system gives out for a request. None is asked for when the image is
found in the cache. -/
def openedBy (server : ImageServer) (request : ImageRequest) : List ℤ :=
  if server.ended then []
  else
    match findFileInCache request.image.cachePath server.machine.cache.fileMap with
    | some .notCached => request.opened.toList
    | _ => []

/-- The descriptors that the cache knows. -/
def knownDescriptors (cache : ImageCache) : Finset ℤ :=
  Finset.univ.image cache.fd

theorem card_knownDescriptors_le (cache : ImageCache) : (knownDescriptors cache).card ≤ 128 :=
  Finset.card_image_le.trans (Finset.card_fin 128).le

section Runs

variable {Wand : Type*} (arith : Arithmetic) (magick : MagickWand Wand)

/-- The descriptors that are given out in the course of some requests. -/
def openedDuring (server : ImageServer) : List ImageRequest → List ℤ
  | [] => []
  | request :: rest =>
    openedBy server request ++
      (imageStep arith magick server request).elim [] fun next ↦ openedDuring next rest

variable {arith magick} {server server' : ImageServer} {request : ImageRequest}
  {requests : List ImageRequest}

/-- A request opens what the system gives out for it, which was not open, and closes nothing. -/
theorem descriptors_of_step (hstep : imageStep arith magick server request = some server') :
    server'.machine.descriptors = server.machine.descriptors ∪ (openedBy server request).toFinset ∧
      (openedBy server request).Nodup ∧
      ∀ fd ∈ openedBy server request, fd ∉ server.machine.descriptors := by
  unfold imageStep at hstep
  unfold openedBy
  split_ifs at hstep ⊢ with hended
  · rw [Option.some.injEq] at hstep
    simp [hstep]
  · obtain ⟨cached, hcached, hstep⟩ := Option.bind_eq_some_iff.mp hstep
    obtain ⟨opening, hopening, hstep⟩ := Option.bind_eq_some_iff.mp hstep
    obtain ⟨⟨machine, result⟩, hcall, rfl⟩ := Option.map_eq_some_iff.mp hstep
    have hdescriptors := descriptors_getImageToSend hcall
    rw [hcached]
    cases cached with
    | cached idx =>
      dsimp only at hdescriptors ⊢
      simp [hdescriptors]
    | notCached =>
      dsimp only at hdescriptors ⊢
      rw [hdescriptors]
      cases hopened : request.opened with
      | none =>
        rw [hopened, openingOf, Option.some.injEq] at hopening
        rw [← hopening]
        simp [openFile]
      | some fd =>
        rw [hopened, openingOf] at hopening
        split_ifs at hopening with hfresh
        rw [Option.some.injEq] at hopening
        rw [← hopening]
        refine ⟨?_, List.nodup_singleton fd, ?_⟩
        · ext other
          simp [openFile]
        · intro other hother
          rw [Option.toList_some, List.mem_singleton] at hother
          exact hother ▸ hfresh.2

/-- The descriptors that are open after any sequence of requests are those that were open before,
and all that were given out in its course. -/
theorem descriptors_of_run (hrun : run (imageStep arith magick) server requests = some server') :
    server'.machine.descriptors =
        server.machine.descriptors ∪ (openedDuring arith magick server requests).toFinset ∧
      (openedDuring arith magick server requests).Nodup ∧
      ∀ fd ∈ openedDuring arith magick server requests, fd ∉ server.machine.descriptors := by
  induction requests generalizing server with
  | nil =>
    rw [run_nil, Option.some.injEq] at hrun
    simp [openedDuring, hrun]
  | cons request rest ih =>
    obtain ⟨next, hnext, hrest⟩ := run_cons_eq_some.mp hrun
    obtain ⟨hfirst, hnodup, hfresh⟩ := descriptors_of_step hnext
    obtain ⟨hlater, hnodup', hfresh'⟩ := ih hrest
    have hopened : openedDuring arith magick server (request :: rest) =
        openedBy server request ++ openedDuring arith magick next rest := by
      rw [openedDuring, hnext, Option.elim_some]
    rw [hfirst] at hfresh'
    rw [hopened]
    refine ⟨?_, ?_, ?_⟩
    · rw [hlater, hfirst, List.toFinset_append, Finset.union_assoc]
    · refine List.nodup_append.mpr ⟨hnodup, hnodup', ?_⟩
      rintro fd hfd other hother rfl
      exact hfresh' fd hother (Finset.mem_union_right _ (List.mem_toFinset.mpr hfd))
    · intro fd hfd hmem
      rcases List.mem_append.mp hfd with hnow | hthen
      · exact hfresh fd hnow hmem
      · exact hfresh' fd hthen (Finset.mem_union_left _ hmem)

/-- After any sequence of requests, all descriptors that were given out in its course are open, and
all but 128 of the open ones are unknown to the cache. -/
theorem unknown_of_run (hrun : run (imageStep arith magick) server requests = some server') :
    server'.machine.descriptors.card =
        server.machine.descriptors.card + (openedDuring arith magick server requests).length ∧
      server.machine.descriptors.card + (openedDuring arith magick server requests).length ≤
        (server'.machine.descriptors \ knownDescriptors server'.machine.cache).card + 128 := by
  obtain ⟨hdescriptors, hnodup, hfresh⟩ := descriptors_of_run hrun
  have hcard : server'.machine.descriptors.card =
      server.machine.descriptors.card + (openedDuring arith magick server requests).length := by
    rw [hdescriptors, Finset.card_union_of_disjoint, List.toFinset_card_of_nodup hnodup]
    rw [Finset.disjoint_right]
    intro fd hfd
    exact hfresh fd (List.mem_toFinset.mp hfd)
  refine ⟨hcard, hcard ▸ ?_⟩
  have hsplit := Finset.card_le_card_sdiff_add_card
    (s := server'.machine.descriptors) (t := knownDescriptors server'.machine.cache)
  have hknown := card_knownDescriptors_le server'.machine.cache
  omega

end Runs

/-- The server before the requests for the photo. -/
abbrev photoServer : ImageServer :=
  startServer photoFiles {0, 1, 2}

/-- The photo is opened once, and the missing one leaves its descriptor open. -/
theorem unknown_photoRequests :
    ∃ server, run (imageStep ieee copyingWand) photoServer photoRequests = some server ∧
      server.machine.descriptors.card = photoServer.machine.descriptors.card +
        (openedDuring ieee copyingWand photoServer photoRequests).length ∧
      photoServer.machine.descriptors.card +
          (openedDuring ieee copyingWand photoServer photoRequests).length ≤
        (server.machine.descriptors \ knownDescriptors server.machine.cache).card + 128 := by
  have hunused : Guarded (imageStep ieee copyingWand) OpensFresh photoServer photoRequests :=
    guarded_opensFresh (by decide) (by decide) (by decide)
  obtain ⟨server, inserted, hrun, -⟩ := exists_run_serving cacheable_photoRequests
    (serving_startServer {0, 1, 2}) (fun _ hrequest ↦ hrequest) hunused
  obtain ⟨hcard, hunknown⟩ := unknown_of_run hrun
  exact ⟨server, hrun, hcard, hunknown⟩

end ImageApp.Cache
