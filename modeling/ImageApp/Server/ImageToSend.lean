import ImageApp.Server.HandleImage
import ImageApp.Server.Strings
import Mathlib.Data.Finset.Insert

/-!
# The image to send

`get_image_to_send` of `HandleImage.c`, as one call on the files, the open descriptors and the
cache. Images are read, adapted and written by MagickWand, which is a parameter: `MagickWand` holds
the functions that are called, and `Documented` what their documentation says about a wand without
images. What the system answers to the opening of the cache file is an input.

A call that adapts an image ends without a `return`, and its code is not specified.
-/

set_option autoImplicit false
set_option relaxedAutoImplicit false

namespace ImageApp.Server

open Foundations.CStrings Foundations.BinaryRounding

/-! ### The image -/

/-- The fields of `struct image_t` that `get_image_to_send` reads, with the first entry of
`image_list`. The names are C strings. -/
structure ImageInfo where
  width : ℤ
  height : ℤ
  colors : ℤ
  imageName : List Byte
  cacheName : List Byte
  ext : List Byte
  quality : ℚ
  extension : ExtImage
  cached : Lookup
  cacheName_zero : (0 : Byte) ∉ cacheName
  ext_zero : (0 : Byte) ∉ ext

namespace ImageInfo

variable (image : ImageInfo)

/-- The field `cache_path`. -/
def cachePath : List Byte :=
  Server.cachePath image.cacheName image.ext

/-- The field `image_path`. -/
def imagePath : List Byte :=
  Server.imagePath image.imageName image.ext

/-- The path that is tried when there is no `".jpg"`. -/
def jpegPath : List Byte :=
  Server.imagePath image.imageName (bytes ".jpeg")

/-- The image as it is put into the cache. -/
def inCache (fd fileSize : ℤ) : CachedImage where
  path := image.cachePath
  zero_notMem := by
    rw [cachePath, Server.cachePath, List.mem_append, List.mem_append, not_or, not_or]
    exact ⟨⟨by decide, image.cacheName_zero⟩, image.ext_zero⟩
  fd := fd
  fileSize := fileSize

end ImageInfo

/-! ### Files and descriptors -/

/-- The content of the files, the open descriptors, and the cache of adapted images. The files are
kept by the text of their path, so two texts that name one file count as two files; results that
compare contents ask that the paths of the requests name each file once. -/
structure Machine where
  files : List Byte → Option (List Byte)
  descriptors : Finset ℤ
  cache : ImageCache

/-- The answer to `open`. A descriptor that it returns is not negative and was not open. -/
inductive Opening (descriptors : Finset ℤ)
  | failed
  | opened (fd : ℤ) (hnonneg : 0 ≤ fd) (hfresh : fd ∉ descriptors)

/-- `open_file` with `O_CREAT | O_RDWR`: a file that is absent is created empty. -/
def openFile (machine : Machine) (path : List Byte) :
    Opening machine.descriptors → Machine × ℤ
  | .failed => (machine, -1)
  | .opened fd _ _ =>
    ({ machine with
      files := if (machine.files path).isSome then machine.files
        else Function.update machine.files path (some [])
      descriptors := insert fd machine.descriptors }, fd)

/-- Opening changes no file at another path. -/
theorem openFile_files_of_ne {machine : Machine} {path other : List Byte}
    (opening : Opening machine.descriptors) (hne : other ≠ path) :
    (openFile machine path opening).1.files other = machine.files other := by
  cases opening with
  | failed => rfl
  | opened fd hnonneg hfresh =>
    simp only [openFile]
    split_ifs with hpresent
    · rfl
    · exact Function.update_of_ne hne ..

/-! ### MagickWand -/

/-- The functions of MagickWand that are called. Reading says whether it succeeded, and is given the
content of the file at the path, if there is one. Writing gives the content that the file at the
path gets, if it succeeds. -/
structure MagickWand (Wand : Type*) where
  newMagickWand : Wand
  readImage : Wand → List Byte → Option (List Byte) → Bool × Wand
  getImageWidth : Wand → ℕ
  getImageHeight : Wand → ℕ
  getImageColors : Wand → ℕ
  setImageFormat : Wand → List Byte → Wand
  setCompressionQuality : Wand → ℕ → Wand
  resizeImage : Wand → ℕ → ℕ → Wand
  quantizeImage : Wand → ℕ → Wand
  writeImage : Wand → List Byte → Option (List Byte)

section Magick

variable {Wand : Type*}

/-- What is relied on: reading fails exactly when the file is absent, writing fails on a wand
without images, and only reading puts images into a wand. -/
structure Documented (magick : MagickWand Wand) (isEmpty : Wand → Prop) : Prop where
  newMagickWand : isEmpty magick.newMagickWand
  readImage_fails_iff : ∀ wand path file,
    (magick.readImage wand path file).1 = false ↔ file = none
  readImage_empty : ∀ wand path file, isEmpty wand →
    (magick.readImage wand path file).1 = false → isEmpty (magick.readImage wand path file).2
  setImageFormat : ∀ wand format, isEmpty wand → isEmpty (magick.setImageFormat wand format)
  setCompressionQuality : ∀ wand quality, isEmpty wand →
    isEmpty (magick.setCompressionQuality wand quality)
  resizeImage : ∀ wand width height, isEmpty wand → isEmpty (magick.resizeImage wand width height)
  quantizeImage : ∀ wand colors, isEmpty wand → isEmpty (magick.quantizeImage wand colors)
  writeImage : ∀ wand path, isEmpty wand → magick.writeImage wand path = none

/-! ### The call -/

/-- An `int` that is converted to `size_t`. -/
def sizeT (value : ℤ) : ℕ :=
  (value % 2 ^ 64).toNat

/-- A measure of the output: the requested one, or that of the source when none is requested. -/
def outputMeasure (requested : ℤ) (source : ℕ) : ℕ :=
  if requested = 0 then source else sizeT requested

/-- What a call of `get_image_to_send` comes to. -/
inductive ImageToSend
  | cachedImage (fd fileSize : ℤ)
  | imageNotPresent
  | adapted (fd fileSize : ℤ)
  | exited
  deriving DecidableEq, Repr

variable (arith : Arithmetic) (magick : MagickWand Wand)

/-- The source is read, with a second try for `".jpg"`. The failure of the first try is an error
only for that extension. -/
def readSource (files : List Byte → Option (List Byte)) (image : ImageInfo) : Option Wand :=
  let first := magick.readImage magick.newMagickWand image.imagePath (files image.imagePath)
  if first.1 = false ∧ image.ext = bytes ".jpg" then
    let second := magick.readImage first.2 image.jpegPath (files image.jpegPath)
    if second.1 = false then none else some second.2
  else some first.2

/-- The format, the quality, the size and the colors are set. -/
def adaptImage (image : ImageInfo) (wand : Wand) : Wand :=
  let width := outputMeasure image.width (magick.getImageWidth wand)
  let height := outputMeasure image.height (magick.getImageHeight wand)
  let colors := outputMeasure image.colors (magick.getImageColors wand)
  let formatted := magick.setImageFormat wand (outputFormat image.extension)
  let compressed := magick.setCompressionQuality formatted
    (truncate (arith.single (image.quality * 100))).toNat
  magick.quantizeImage (magick.resizeImage compressed width height) colors

/-- The end of the call, after the image was written: `get_file_size` ends the program for a
descriptor that is none. -/
def publishImage (machine : Machine) (image : ImageInfo) (fd fileSize : ℤ) :
    Option (Machine × ImageToSend) :=
  if fd = -1 then some (machine, .exited)
  else
    (insertImage machine.cache (image.inCache fd fileSize)).map fun cache ↦
      ({ machine with cache := cache }, .adapted fd fileSize)

/-- `get_image_to_send`. It is `none` when it reads or writes outside the cache. -/
def getImageToSend (machine : Machine) (image : ImageInfo) (opening : Opening machine.descriptors) :
    Option (Machine × ImageToSend) :=
  match image.cached with
  | .cached idx =>
    (cachedFile machine.cache idx).map fun file ↦ (machine, .cachedImage file.1 file.2)
  | .notCached =>
    let opened := openFile machine image.cachePath opening
    match readSource magick opened.1.files image with
    | none => some (opened.1, .imageNotPresent)
    | some wand =>
      match magick.writeImage (adaptImage arith magick image wand) image.cachePath with
      | none => some (opened.1, .exited)
      | some content =>
        publishImage
          { opened.1 with
            files := Function.update opened.1.files image.cachePath (some content) }
          image opened.2 content.length

variable {magick}

/-- A wand without images stays one while it is adapted. -/
theorem isEmpty_adaptImage {isEmpty : Wand → Prop} (hmagick : Documented magick isEmpty)
    (image : ImageInfo) {wand : Wand} (hwand : isEmpty wand) :
    isEmpty (adaptImage arith magick image wand) := by
  have hformatted := hmagick.setImageFormat wand (outputFormat image.extension) hwand
  have hcompressed := hmagick.setCompressionQuality _
    (truncate (arith.single (image.quality * 100))).toNat hformatted
  exact hmagick.quantizeImage _ _ (hmagick.resizeImage _ _ _ hcompressed)

/-- The source of an image is absent, under both paths that are tried. -/
structure SourceAbsent (files : List Byte → Option (List Byte)) (image : ImageInfo) : Prop where
  imagePath : files image.imagePath = none
  jpegPath : image.ext = bytes ".jpg" → files image.jpegPath = none

/-- An absent source is noticed only for `".jpg"`. Otherwise the wand has no images. -/
theorem readSource_absent {isEmpty : Wand → Prop} (hmagick : Documented magick isEmpty)
    {files : List Byte → Option (List Byte)} {image : ImageInfo}
    (habsent : SourceAbsent files image) :
    if image.ext = bytes ".jpg" then readSource magick files image = none
    else ∃ wand, readSource magick files image = some wand ∧ isEmpty wand := by
  have hfirst : (magick.readImage magick.newMagickWand image.imagePath
      (files image.imagePath)).1 = false :=
    (hmagick.readImage_fails_iff ..).mpr habsent.imagePath
  unfold readSource
  split_ifs with hjpg
  · have hsecond : ∀ wand,
        (magick.readImage wand image.jpegPath (files image.jpegPath)).1 = false :=
      fun wand ↦ (hmagick.readImage_fails_iff ..).mpr (habsent.jpegPath hjpg)
    simp [hfirst, hjpg, hsecond]
  · simp only [hfirst, hjpg, and_false, if_false]
    exact ⟨_, rfl, hmagick.readImage_empty _ _ _ hmagick.newMagickWand hfirst⟩

end Magick

/-- The two directories are different. -/
theorem imagePath_ne_cachePath (imageName ext cacheName ext' : List Byte) :
    imagePath imageName ext ≠ cachePath cacheName ext' := by
  have himages : imageDir = [46, 46, 47, 105] ++ [109, 97, 103, 101, 115, 47] := by decide
  have hcache : imageCache = [46, 46, 47, 99] ++ [97, 99, 104, 101, 47] := by decide
  rw [imagePath, cachePath, himages, hcache]
  simp

/-- The source is still absent when the cache file was opened. -/
theorem SourceAbsent.openFile {machine : Machine} {image : ImageInfo}
    (habsent : SourceAbsent machine.files image) (opening : Opening machine.descriptors) :
    SourceAbsent (openFile machine image.cachePath opening).1.files image := by
  have himage : image.imagePath ≠ image.cachePath := imagePath_ne_cachePath _ _ _ _
  have hjpeg : image.jpegPath ≠ image.cachePath := imagePath_ne_cachePath _ _ _ _
  refine ⟨?_, fun hjpg ↦ ?_⟩
  · rw [openFile_files_of_ne opening himage]
    exact habsent.imagePath
  · rw [openFile_files_of_ne opening hjpeg]
    exact habsent.jpegPath hjpg

end ImageApp.Server
