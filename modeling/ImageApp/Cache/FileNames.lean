import ImageApp.Foundations.PathDescent
import ImageApp.Server.ImageToSend

/-!
# Paths that name the same file

A machine keeps its files by the text of their paths, but two texts can name one file, as
`../cache/photo` and `../cache//photo` do. `NamesFilesOnce` says of some images that this does not
matter for them: their paths stay inside their directories, so that no source is a cache file, and
cache paths of one file are the same text. Names without empty components and dots are so
(`namesFilesOnce_of_plain`).

`OneContent` is what it is good for. Only cache files are written, and a file that is written under
one path of the images is not read under another one (`OneContent.write`).
-/

set_option autoImplicit false
set_option relaxedAutoImplicit false

namespace ImageApp.Cache

open Foundations.CStrings Foundations.PathDescent Server

/-- The paths lead to the same place from the directory of the server. -/
def SameFile (path other : List Byte) : Prop :=
  leadsTo slash dot path = leadsTo slash dot other

instance decidableSameFile (path other : List Byte) : Decidable (SameFile path other) :=
  inferInstanceAs (Decidable (_ = _))

/-- The paths of the images stay inside their directories, and two cache paths of one file are the
same text. -/
structure NamesFilesOnce (images : List ImageInfo) : Prop where
  inside : ∀ image ∈ images, StaysInside slash dot (image.imageName ++ image.ext) ∧
    StaysInside slash dot (image.imageName ++ bytes ".jpeg") ∧
      StaysInside slash dot (image.cacheName ++ image.ext)
  caches : ∀ first ∈ images, ∀ second ∈ images,
    SameFile first.cachePath second.cachePath → first.cachePath = second.cachePath

/-- A path that `get_image_to_send` uses for one of the images. -/
def UsedPath (images : List ImageInfo) (path : List Byte) : Prop :=
  ∃ image ∈ images, path = image.cachePath ∨ path = image.imagePath ∨ path = image.jpegPath

/-- Two used paths of one file have the same content. -/
def OneContent (files : List Byte → Option (List Byte)) (images : List ImageInfo) : Prop :=
  ∀ path other, UsedPath images path → UsedPath images other → SameFile path other →
    files path = files other

/-! ### Plain names -/

/-- The place of a path in one of the two directories, each of them a text without its last slash.
-/
theorem imagePath_eq_append (imageName ext : List Byte) :
    imagePath imageName ext = bytes "../images" ++ slash :: (imageName ++ ext) := by
  rw [imagePath, show imageDir = bytes "../images" ++ [slash] by decide]
  simp

theorem cachePath_eq_append (cacheName ext : List Byte) :
    cachePath cacheName ext = bytes "../cache" ++ slash :: (cacheName ++ ext) := by
  rw [cachePath, show imageCache = bytes "../cache" ++ [slash] by decide]
  simp

/-- Inside their directories, no source is a cache file. -/
theorem not_sameFile_of_staysInside {imageName ext cacheName ext' : List Byte}
    (himage : StaysInside slash dot (imageName ++ ext))
    (hcache : StaysInside slash dot (cacheName ++ ext')) :
    ¬ SameFile (imagePath imageName ext) (cachePath cacheName ext') := by
  rw [SameFile, imagePath_eq_append, cachePath_eq_append]
  exact himage.leadsTo_ne hcache (by decide) (by decide)

/-- Images name each file once when no component behind the cache directory is empty or made of
dots, and the sources are inside their directory. -/
theorem namesFilesOnce_of_plain {images : List ImageInfo}
    (hplain : ∀ image ∈ images, Plain slash dot (image.cacheName ++ image.ext))
    (hinside : ∀ image ∈ images, StaysInside slash dot (image.imageName ++ image.ext) ∧
      StaysInside slash dot (image.imageName ++ bytes ".jpeg")) : NamesFilesOnce images where
  inside := fun image himage ↦
    ⟨(hinside image himage).1, (hinside image himage).2, (hplain image himage).staysInside⟩
  caches := by
    intro first hfirst second hsecond hsame
    rw [SameFile, ImageInfo.cachePath, ImageInfo.cachePath, cachePath_eq_append,
      cachePath_eq_append] at hsame
    rw [ImageInfo.cachePath, ImageInfo.cachePath, cachePath_eq_append, cachePath_eq_append,
      eq_of_leadsTo_eq (hplain first hfirst) (hplain second hsecond) hsame]

-- An empty component is enough for a second name of a file.
example : SameFile (bytes "../cache//photo1.00000000100.jpg")
    (bytes "../cache/photo1.00000000100.jpg") := by decide +kernel

/-- No source of the images is a cache file of theirs. -/
theorem NamesFilesOnce.not_sameFile {images : List ImageInfo} (honce : NamesFilesOnce images)
    {first second : ImageInfo} (hfirst : first ∈ images) (hsecond : second ∈ images) :
    ¬ SameFile first.imagePath second.cachePath ∧ ¬ SameFile first.jpegPath second.cachePath := by
  obtain ⟨himage, hjpeg, -⟩ := honce.inside first hfirst
  have hcache := (honce.inside second hsecond).2.2
  exact ⟨not_sameFile_of_staysInside himage hcache, not_sameFile_of_staysInside hjpeg hcache⟩

/-! ### What is written is read -/

/-- A used path of a cache file is the cache path itself. -/
theorem NamesFilesOnce.eq_cachePath {images : List ImageInfo} (honce : NamesFilesOnce images)
    {image : ImageInfo} (himage : image ∈ images) {path : List Byte} (hused : UsedPath images path)
    (hsame : SameFile path image.cachePath) : path = image.cachePath := by
  obtain ⟨other, hother, rfl | rfl | rfl⟩ := hused
  · exact honce.caches other hother image himage hsame
  · exact absurd hsame (honce.not_sameFile hother himage).1
  · exact absurd hsame (honce.not_sameFile hother himage).2

/-- When only the file at the cache path of one of the images changes, it has still one content
under all used paths. -/
theorem OneContent.write {files files' : List Byte → Option (List Byte)} {images : List ImageInfo}
    (hone : OneContent files images) (honce : NamesFilesOnce images) {image : ImageInfo}
    (himage : image ∈ images) (hfiles : ∀ path, path ≠ image.cachePath → files' path = files path) :
    OneContent files' images := by
  intro path other hpath hother hsame
  by_cases hwritten : path = image.cachePath
  · rw [honce.eq_cachePath himage hother (hwritten ▸ hsame.symm), hwritten]
  · have hfree : other ≠ image.cachePath := by
      rintro rfl
      exact hwritten (honce.eq_cachePath himage hpath hsame)
    rw [hfiles path hwritten, hfiles other hfree]
    exact hone path other hpath hother hsame

end ImageApp.Cache
