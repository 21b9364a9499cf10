import ImageApp.Foundations.PrefixCodes
import ImageApp.Server.HandleDB
import ImageApp.Server.RequestLine
import ImageApp.Server.ThreadPool

/-!
# The log

`write_event_log` of `Log.c`: the line that is printed for an event. The time is the text that
`strftime` has made of it. An event that is about an image comes with the names of the image that
are printed. They come from a request line, and `exists_loggedImage` says that they hold no blank.
-/

set_option autoImplicit false
set_option relaxedAutoImplicit false

namespace ImageApp.Server

open Foundations.CStrings Foundations.DecimalRows Foundations.PrefixCodes

/-- One of the four bytes of an address, as they are in memory. -/
def octet (sinAddr : UInt32) (i : ℕ) : ℕ :=
  sinAddr.toNat / 256 ^ i % 256

/-- `inet_ntoa`: the four bytes of the address with points in between. -/
def inetNtoa (sinAddr : UInt32) : List Byte :=
  intText (octet sinAddr 0) ++ bytes "." ++ intText (octet sinAddr 1) ++ bytes "." ++
    intText (octet sinAddr 2) ++ bytes "." ++ intText (octet sinAddr 3)

/-- `ntohs`: the two bytes of the port change places. -/
def ntohs (sinPort : UInt16) : ℕ :=
  sinPort.toNat % 256 * 256 + sinPort.toNat / 256

/-- A name without a blank. -/
abbrev Unspaced := {text : List Byte // space ∉ text}

/-- What is printed of an image: the name, and the cache path, of which the part behind the
directory is given. -/
structure LoggedImage where
  imageName : Unspaced
  cacheFile : Unspaced

/-- The field `cache_path`. -/
def LoggedImage.cachePath (image : LoggedImage) : List Byte :=
  imageCache ++ image.cacheFile

/-- `enum event_type` and `CONNECTION_CLOSED`, with the image of the events that are about one. -/
inductive EventType
  | connectionAccepted
  | logImageRequested (image : LoggedImage)
  | logEmptyMessage
  | logMaxNumRequests
  | logImageNotPresent (image : LoggedImage)
  | connectionClosed

/-- `write_event_log`: what is printed, by the event. -/
def writeEventLog (timeBuf : List Byte) (event : EventType) (sockaddrIn : SockaddrIn) :
    List Byte :=
  bytes "<<" ++ timeBuf ++
    match event with
    | .connectionAccepted =>
      bytes ">> : a client has connected. Its address is " ++ inetNtoa sockaddrIn.1 ++
        bytes " and was given " ++ intText (ntohs sockaddrIn.2) ++ bytes " port\n"
    | .logImageRequested image =>
      bytes ">> : the client " ++ inetNtoa sockaddrIn.1 ++ bytes " has requested " ++
        image.cachePath ++ bytes " image\n"
    | .logEmptyMessage =>
      bytes ">> : the client " ++ inetNtoa sockaddrIn.1 ++ bytes " has disconnected\n"
    | .logMaxNumRequests =>
      bytes ">> : the client " ++ inetNtoa sockaddrIn.1 ++
        bytes " has finished its number of requests\n"
    | .logImageNotPresent image =>
      bytes ">> : the client " ++ inetNtoa sockaddrIn.1 ++ bytes " has requested the image " ++
        image.imageName ++ bytes " that is not present\n"
    | .connectionClosed =>
      bytes ">> : a client has disconnected. Its address was " ++ inetNtoa sockaddrIn.1 ++
        bytes " and was given " ++ intText (ntohs sockaddrIn.2) ++ bytes " port\n"

/-! ### The names of requests -/

/-- An accepted extension holds no blank. -/
theorem AcceptedName.space_notMem_ext {imageName ext : List Byte}
    (haccepted : AcceptedName imageName ext) : space ∉ ext := by
  rcases haccepted.ext_cases with ⟨-, rfl⟩ | ⟨tail, rfl, -, htail, -⟩
  · exact List.not_mem_nil
  · rw [List.mem_cons, not_or]
    exact ⟨by decide, htail⟩

/-- The text of a quality holds no blank. -/
theorem space_notMem_qualityText (arith : Arithmetic) (quality : ℚ) :
    space ∉ qualityText arith quality := by
  rw [qualityText]
  split_ifs
  · rw [List.mem_append, not_or]
    exact ⟨by decide, fun hmem ↦ notMem_numeral (Or.inl (by decide)) _ (List.mem_of_mem_take hmem)⟩
  · decide

/-- The cache name that is built for an accepted name holds no blank, nor does its file. -/
theorem space_notMem_cacheFile (arith : Arithmetic) (beyond : List Byte)
    {imageName ext : List Byte} (haccepted : AcceptedName imageName ext) (quality : ℚ)
    (width height colors : ℤ) :
    space ∉ buildImageNameCache arith beyond imageName quality width height colors ++ ext := by
  have hnumeral : ∀ value, space ∉ numeral value := notMem_numeral (Or.inl (by decide))
  rw [buildImageNameCache_eq]
  simp only [List.mem_append, not_or]
  exact ⟨⟨⟨⟨⟨haccepted.space_notMem, space_notMem_qualityText arith quality⟩, hnumeral _⟩,
    hnumeral _⟩, hnumeral _⟩, haccepted.space_notMem_ext⟩

/-- The image of every request line that `parse_name` accepts can be logged, with the cache path
that `handle_client` prints for it. -/
theorem exists_loggedImage (arith : Arithmetic) (beyond : List Byte)
    {line imageName ext : List Byte}
    (hparse : parseName line = some (.imageRequested imageName ext)) (quality : ℚ)
    (width height colors : ℤ) :
    ∃ image : LoggedImage, image.imageName.val = imageName ∧
      image.cachePath =
        cachePath (buildImageNameCache arith beyond imageName quality width height colors) ext := by
  have haccepted := acceptedName_of_parseName hparse
  refine ⟨⟨⟨imageName, haccepted.space_notMem⟩, ⟨_, space_notMem_cacheFile arith beyond haccepted
    quality width height colors⟩⟩, rfl, ?_⟩
  rw [cachePath, List.append_assoc]
  rfl

/-! ### Addresses and ports -/

/-- A natural number is printed in digits. -/
theorem notMem_intText {byte : Byte} (hbyte : byte.toNat < 48 ∨ 57 < byte.toNat) (value : ℕ) :
    byte ∉ intText value := by
  rw [intText, if_neg (by omega), List.nil_append]
  split_ifs
  · intro hmem
    rw [show bytes "0" = [48] from rfl, List.mem_singleton] at hmem
    subst hmem
    exact absurd hbyte (by decide)
  · exact notMem_numeral hbyte _

/-- The text of a number is read as the number. -/
theorem intText_injective {first second : ℕ} (hfirst : first < 2 ^ 31) (hsecond : second < 2 ^ 31)
    (heq : intText first = intText second) : first = second := by
  have hread := @parseInt_intText (first : ℤ) ⟨by omega, by omega⟩
  have hread' := @parseInt_intText (second : ℤ) ⟨by omega, by omega⟩
  rw [heq, hread'] at hread
  exact_mod_cast hread.symm

theorem octet_lt (sinAddr : UInt32) (i : ℕ) : octet sinAddr i < 256 :=
  Nat.mod_lt _ (by decide)

/-- The port can be told from its number. -/
theorem ntohs_injective : Function.Injective ntohs := by
  intro first second heq
  have hfirst := first.toNat_lt
  have hsecond := second.toNat_lt
  rw [ntohs, ntohs] at heq
  apply UInt16.toNat_inj.mp
  omega

theorem ntohs_lt (sinPort : UInt16) : ntohs sinPort < 2 ^ 31 := by
  have hlt := sinPort.toNat_lt
  rw [ntohs]
  omega

/-- The address can be told from its text. -/
theorem inetNtoa_injective : Function.Injective inetNtoa := by
  intro first second heq
  have hpoint : ∀ value : ℕ, dot ∉ intText value := notMem_intText (Or.inl (by decide))
  have hoctet : ∀ i, intText (octet first i) = intText (octet second i) →
      octet first i = octet second i := fun i ↦
    intText_injective ((octet_lt first i).trans (by decide)) ((octet_lt second i).trans (by decide))
  have hbytes : bytes "." = [dot] := rfl
  simp only [inetNtoa, hbytes, List.append_assoc, List.singleton_append] at heq
  obtain ⟨hzero, heq⟩ := eq_of_append_stop (hpoint _) (hpoint _) heq
  obtain ⟨hone, heq⟩ := eq_of_append_stop (hpoint _) (hpoint _) heq
  obtain ⟨htwo, hthree⟩ := eq_of_append_stop (hpoint _) (hpoint _) heq
  have hall := And.intro (hoctet 0 hzero) (And.intro (hoctet 1 hone)
    (And.intro (hoctet 2 htwo) (hoctet 3 hthree)))
  have hfirst := first.toNat_lt
  have hsecond := second.toNat_lt
  simp only [octet] at hall
  apply UInt32.toNat_inj.mp
  omega

theorem space_notMem_inetNtoa (sinAddr : UInt32) : space ∉ inetNtoa sinAddr := by
  have hpoint : space ∉ bytes "." := by decide
  have hoctet : ∀ i, space ∉ intText (octet sinAddr i) := fun i ↦
    notMem_intText (Or.inl (by decide)) _
  simp only [inetNtoa, List.mem_append, not_or]
  exact ⟨⟨⟨⟨⟨⟨hoctet 0, hpoint⟩, hoctet 1⟩, hpoint⟩, hoctet 2⟩, hpoint⟩, hoctet 3⟩

end ImageApp.Server
