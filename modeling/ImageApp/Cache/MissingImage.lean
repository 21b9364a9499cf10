import ImageApp.Server.ImageToSend
import Mathlib.Data.Set.Basic

/-!
# Requests for a missing image

A request for an image that does not exist should be answered by an error, and change nothing. But
`get_image_to_send` opens the cache file before it looks for the source, and creates it, and it
takes the failure to read the source for an error only when the extension is `".jpg"`: for every
other extension it goes on with an empty wand, until the failure to write the result ends the
program.

`errorAnswer_iff` says that the request is answered by an error and changes nothing exactly when the
extension is `".jpg"` and the cache file cannot be opened. `not_errorAnswer` is a missing `".png"`,
which ends the program, and a missing `".jpg"`, which leaves a descriptor that nobody closes.
-/

set_option autoImplicit false
set_option relaxedAutoImplicit false

namespace ImageApp.Cache

open Foundations.CStrings Server

/-- The files in the cache directory. -/
def cacheFiles (machine : Machine) : Set (List Byte) :=
  {path | imageCache <+: path ∧ (machine.files path).isSome = true}

/-- Nothing has changed in the cache directory, in the open descriptors and in the cache. -/
structure Unchanged (machine machine' : Machine) : Prop where
  cacheFiles_eq : cacheFiles machine' = cacheFiles machine
  descriptors_eq : machine'.descriptors = machine.descriptors
  cache_eq : machine'.cache = machine.cache

section Missing

variable {Wand : Type*} (arith : Arithmetic) (magick : MagickWand Wand)

/-- The call returns `IMAGE_NOT_PRESENT` and changes nothing. -/
def ErrorAnswer (machine : Machine) (image : ImageInfo) (opening : Opening machine.descriptors) :
    Prop :=
  ∃ machine', getImageToSend arith magick machine image opening =
    some (machine', .imageNotPresent) ∧ Unchanged machine machine'

variable {magick} {isEmpty : Wand → Prop} (hmagick : Documented magick isEmpty) {machine : Machine}
  {image : ImageInfo} (hcached : image.cached = .notCached)
  (habsent : SourceAbsent machine.files image)

include hmagick hcached habsent

/-- What the call does for a missing image: it returns an error for `".jpg"`, and ends the program
for any other extension. The cache file is open then, if it could be opened. -/
theorem getImageToSend_absent (opening : Opening machine.descriptors) :
    getImageToSend arith magick machine image opening =
      some ((openFile machine image.cachePath opening).1,
        if image.ext = bytes ".jpg" then .imageNotPresent else .exited) := by
  have hsource := readSource_absent hmagick (habsent.openFile opening)
  simp only [getImageToSend, hcached]
  split_ifs at hsource ⊢ with hjpg
  · simp only [hsource]
  · obtain ⟨wand, hread, hempty⟩ := hsource
    have hadapted := isEmpty_adaptImage arith hmagick image hempty
    simp only [hread, hmagick.writeImage _ image.cachePath hadapted]

/-- A request for a missing image is answered by an error and changes nothing exactly when the
extension is `".jpg"` and the cache file cannot be opened. -/
theorem errorAnswer_iff (opening : Opening machine.descriptors) :
    ErrorAnswer arith magick machine image opening ↔
      image.ext = bytes ".jpg" ∧ opening = .failed := by
  unfold ErrorAnswer
  rw [getImageToSend_absent arith hmagick hcached habsent opening]
  constructor
  · rintro ⟨machine', hcall, hunchanged⟩
    rw [Option.some.injEq, Prod.mk.injEq] at hcall
    obtain ⟨rfl, hcode⟩ := hcall
    have hjpg : image.ext = bytes ".jpg" := by
      by_contra hother
      simp [hother] at hcode
    refine ⟨hjpg, ?_⟩
    cases opening with
    | failed => rfl
    | opened fd hnonneg hfresh =>
      -- The descriptor of the cache file is still open.
      have hleaked : fd ∈ insert fd machine.descriptors := Finset.mem_insert_self ..
      have hsame : insert fd machine.descriptors = machine.descriptors := hunchanged.descriptors_eq
      rw [hsame] at hleaked
      exact absurd hleaked hfresh
  · rintro ⟨hjpg, rfl⟩
    rw [if_pos hjpg]
    exact ⟨machine, rfl, rfl, rfl, rfl⟩

end Missing

/-! ### Two extensions -/

/-- A wand that holds the content of the last image that was read, and writes it as it is. -/
def copyingWand : MagickWand (Option (List Byte)) where
  newMagickWand := none
  readImage := fun wand _ file ↦
    match file with
    | none => (false, wand)
    | some content => (true, some content)
  getImageWidth := fun _ ↦ 0
  getImageHeight := fun _ ↦ 0
  getImageColors := fun _ ↦ 0
  setImageFormat := fun wand _ ↦ wand
  setCompressionQuality := fun wand _ ↦ wand
  resizeImage := fun wand _ _ ↦ wand
  quantizeImage := fun wand _ ↦ wand
  writeImage := fun wand _ ↦ wand

theorem documented_copyingWand : Documented copyingWand (· = none) where
  newMagickWand := rfl
  readImage_fails_iff := fun wand path file ↦ by
    cases file with
    | none => simp [copyingWand]
    | some content => simp [copyingWand]
  readImage_empty := fun wand path file hwand hfails ↦ by
    cases file with
    | none => exact hwand
    | some content => simp [copyingWand] at hfails
  setImageFormat := fun _ _ hwand ↦ hwand
  setCompressionQuality := fun _ _ hwand ↦ hwand
  resizeImage := fun _ _ _ hwand ↦ hwand
  quantizeImage := fun _ _ hwand ↦ hwand
  writeImage := fun _ _ hwand ↦ hwand

/-- A machine without images. -/
def bareMachine : Machine where
  files := fun _ ↦ none
  descriptors := {0, 1, 2}
  cache := emptyCache

/-- A photo that is not in the cache. -/
def uncachedPhoto (ext : List Byte) (hext : (0 : Byte) ∉ ext) : ImageInfo where
  width := 0
  height := 0
  colors := 0
  imageName := bytes "photo"
  cacheName := bytes "photo1.00000000"
  ext := ext
  quality := 1
  extension := .jpg
  cached := .notCached
  cacheName_zero := by decide
  ext_zero := hext

theorem errorAnswer_jpg :
    ErrorAnswer ieee copyingWand bareMachine (uncachedPhoto (bytes ".jpg") (by decide)) .failed :=
  (errorAnswer_iff ieee documented_copyingWand rfl ⟨rfl, fun _ ↦ rfl⟩ .failed).mpr ⟨rfl, rfl⟩

/-- A missing `".png"` ends the program, and a missing `".jpg"` leaves a descriptor open. -/
theorem not_errorAnswer :
    (¬ ∀ (Wand : Type) (magick : MagickWand Wand) (isEmpty : Wand → Prop),
      Documented magick isEmpty → ∀ (machine : Machine) (image : ImageInfo),
        image.cached = .notCached → SourceAbsent machine.files image →
          ∀ opening : Opening machine.descriptors,
            ErrorAnswer ieee magick machine image opening) ∧
      (getImageToSend ieee copyingWand bareMachine (uncachedPhoto (bytes ".jpg") (by decide))
        (.opened 3 (by decide) (by decide))).map (fun answer ↦ (answer.1.descriptors, answer.2)) =
          some ({0, 1, 2, 3}, .imageNotPresent) := by
  constructor
  · intro hanswer
    obtain ⟨machine', hcall, -⟩ := hanswer _ copyingWand (· = none) documented_copyingWand
      bareMachine (uncachedPhoto (bytes ".png") (by decide)) rfl ⟨rfl, fun _ ↦ rfl⟩
      (.opened 3 (by decide) (by decide))
    have hexited : (getImageToSend ieee copyingWand bareMachine
        (uncachedPhoto (bytes ".png") (by decide)) (.opened 3 (by decide) (by decide))).map
          Prod.snd = some .exited := by
      decide +kernel
    rw [hcall] at hexited
    simp at hexited
  · decide +kernel

end ImageApp.Cache
