import ImageApp.Cache.RingAlignment
import ImageApp.Foundations.PathDescent
import ImageApp.Paths.Traversal

/-!
# Hits on other paths

`find_file_in_cache` takes an entry in which the wanted path merely occurs. Every cache path starts
with `"../cache/"`, and that text occurs nowhere else in it, also not in the fragments that are left
of overwritten entries. So a hit is an entry that starts with the wanted path
(`isPrefix_of_occurs`), and what follows it can only be the rest of the extension, or, when the
request had neither name nor extension, the rest of the numbers (`cutShort_of_isPrefix`).

`noFalseHits_iff` is about every run of insertions and lookups: every hit is on the wanted path
itself exactly when no path is looked up that cuts an entry short, unless it is an earlier entry of
its own. `not_noFalseHits` is the lookup of a photo with the extension `.j`.
-/

set_option autoImplicit false
set_option relaxedAutoImplicit false

namespace ImageApp.Cache

open Foundations.CStrings Foundations.DecimalRows Foundations.GuardedRuns Foundations.PathDescent
  Server

/-! ### Cache paths -/

/-- What a cache path is built from. The name and the extension come from a line that `parse_name`
accepts, and `beyond` is what lies behind the digits of the quality on the heap. -/
structure CacheKey where
  imageName : List Byte
  ext : List Byte
  quality : ℚ
  width : ℤ
  height : ℤ
  colors : ℤ
  beyond : List Byte
  accepted : ∃ line, parseName line = some (.imageRequested imageName ext)

namespace CacheKey

variable (arith : Arithmetic)

/-- The cache path. -/
def path (key : CacheKey) : List Byte :=
  cachePath
    (buildImageNameCache arith key.beyond key.imageName key.quality key.width key.height
      key.colors) key.ext

/-- The quality and the numbers as the path shows them. -/
def numbers (key : CacheKey) : List Byte :=
  qualityText arith key.quality ++ numeral key.width.toNat ++ numeral key.height.toNat ++
    numeral key.colors.toNat

/-- The path is the name, the numbers and the extension in the cache directory. -/
theorem path_eq (key : CacheKey) :
    key.path arith = imageCache ++ (key.imageName ++ (key.numbers arith ++ key.ext)) := by
  rw [path, cachePath, buildImageNameCache_eq, numbers]
  simp only [List.append_assoc]

/-- The numbers are a digit, a dot, and digits. -/
theorem numbers_spec (key : CacheKey) :
    ∃ first digits, key.numbers arith = first :: dot :: digits ∧ (first = 48 ∨ first = 49) ∧
      ∀ byte : Byte, byte.toNat < 48 ∨ 57 < byte.toNat → byte ∉ digits := by
  set rest := numeral key.width.toNat ++ (numeral key.height.toNat ++ numeral key.colors.toNat)
    with hrest
  have hfree : ∀ byte : Byte, byte.toNat < 48 ∨ 57 < byte.toNat → byte ∉ rest := by
    intro byte hbyte
    simp only [hrest, List.mem_append, not_or]
    exact ⟨notMem_numeral hbyte _, notMem_numeral hbyte _, notMem_numeral hbyte _⟩
  have hnumbers : key.numbers arith = qualityText arith key.quality ++ rest := by
    rw [numbers, hrest]
    simp only [List.append_assoc]
  rw [hnumbers, qualityText]
  split_ifs
  · refine ⟨48, (numeral (decimalPart arith key.quality).toNat).take 8 ++ rest, ?_, Or.inl rfl, ?_⟩
    · rw [show bytes "0." = [48, dot] by decide]
      simp
    · intro byte hbyte
      rw [List.mem_append, not_or]
      exact ⟨fun hmem ↦ notMem_numeral hbyte _ (List.mem_of_mem_take hmem), hfree byte hbyte⟩
  · refine ⟨49, bytes "00000000" ++ rest, ?_, Or.inr rfl, ?_⟩
    · rw [show bytes "1.00000000" = 49 :: dot :: bytes "00000000" by decide]
      rfl
    · intro byte hbyte
      rw [List.mem_append, not_or]
      refine ⟨?_, hfree byte hbyte⟩
      rw [show bytes "00000000" = List.replicate 8 48 by decide, List.mem_replicate]
      rintro ⟨-, rfl⟩
      rcases hbyte with hlow | hhigh
      · exact absurd hlow (by decide)
      · exact absurd hhigh (by decide)

theorem path_ne_nil (key : CacheKey) : key.path arith ≠ [] := by
  rw [path_eq, show imageCache = dot :: bytes "./cache/" by decide]
  simp

/-- The bytes in front of the dot of the quality, and those behind it. -/
theorem exists_path_eq (key : CacheKey) :
    ∃ first digits, key.numbers arith = first :: dot :: digits ∧ dot ∉ key.imageName ++ [first] ∧
      dot ∉ digits ∧ (0 : Byte) ∉ first :: digits ∧ key.path arith =
        imageCache ++ ((key.imageName ++ [first]) ++ dot :: (digits ++ key.ext)) := by
  obtain ⟨first, digits, hnumbers, hfirst, hdigits⟩ := key.numbers_spec arith
  obtain ⟨line, hline⟩ := key.accepted
  have hname := (acceptedName_of_parseName hline).dot_notMem
  have hne : ∀ byte : Byte, byte ≠ 48 → byte ≠ 49 → byte ≠ first := by
    rintro byte hzero hone rfl
    rcases hfirst with heq | heq
    · exact hzero heq
    · exact hone heq
  refine ⟨first, digits, hnumbers, ?_, hdigits dot (by decide), ?_, ?_⟩
  · rw [List.mem_append, not_or, List.mem_singleton]
    exact ⟨hname, hne dot (by decide) (by decide)⟩
  · rw [List.mem_cons, not_or]
    exact ⟨hne 0 (by decide) (by decide), hdigits 0 (by decide)⟩
  · rw [path_eq, hnumbers]
    simp

/-- A cache path is a C string. -/
theorem zero_notMem_path (key : CacheKey) : (0 : Byte) ∉ key.path arith := by
  obtain ⟨first, digits, -, -, -, hzero, hpath⟩ := key.exists_path_eq arith
  obtain ⟨line, hline⟩ := key.accepted
  have haccepted := acceptedName_of_parseName hline
  have hdirectory : (0 : Byte) ∉ imageCache := by decide
  rw [List.mem_cons, not_or] at hzero
  rw [hpath]
  simp only [List.mem_append, List.mem_cons, List.not_mem_nil, not_or, or_false]
  exact ⟨hdirectory, ⟨haccepted.zero_notMem, hzero.1⟩, by decide, hzero.2,
    haccepted.zero_notMem_ext⟩

end CacheKey

/-! ### Where a cache path can occur -/

variable {arith : Arithmetic}

/-- Behind a dot that follows the one of the quality there are at most three bytes. -/
theorem length_le_of_append_dot {key : CacheKey} {digits front rest : List Byte}
    (hdigits : dot ∉ digits) (hsplit : digits ++ key.ext = front ++ dot :: rest) :
    rest.length ≤ 3 := by
  obtain ⟨line, hline⟩ := key.accepted
  rcases (acceptedName_of_parseName hline).ext_cases with ⟨-, hext⟩ | ⟨tail, hext, htail, -⟩
  · rw [hext, List.append_nil] at hsplit
    rw [hsplit] at hdigits
    exact absurd (List.mem_append_right _ List.mem_cons_self) hdigits
  · have hlength := congrArg List.length hsplit
    rcases List.append_eq_append_iff.mp hsplit with ⟨more, hfront, -⟩ | ⟨more, hfront, hrest⟩
    · rw [hext] at hlength
      simp only [hfront, List.length_append, List.length_cons] at hlength
      omega
    · cases more with
      | nil =>
        rw [List.nil_append, hext, List.cons.injEq] at hrest
        rw [hrest.2]
        exact htail
      | cons byte more =>
        rw [List.cons_append, List.cons.injEq] at hrest
        rw [hfront, ← hrest.1] at hdigits
        exact absurd (List.mem_append_right _ List.mem_cons_self) hdigits

/-- The text `"../cache/"` stands only at the start of a cache path. -/
theorem eq_nil_of_path_eq {key : CacheKey} {before after : List Byte}
    (heq : key.path arith = before ++ (imageCache ++ after)) : before = [] := by
  obtain ⟨first, digits, -, hhead, hdigits, -, hpath⟩ := key.exists_path_eq arith
  have hcache : imageCache = dot :: dot :: bytes "/cache/" := by decide
  rw [hpath, hcache] at heq
  match before with
  | [] => rfl
  | [byte] =>
    have hslash : bytes "/cache/" = 47 :: bytes "cache/" := by decide
    rw [hslash] at heq
    simp only [List.cons_append, List.nil_append, List.cons.injEq] at heq
    exact absurd heq.2.2.1 (by decide)
  | byte :: byte' :: before =>
    -- Two dots in a row behind the first two bytes would have to be those around the numbers.
    simp only [List.cons_append, List.cons.injEq] at heq
    obtain ⟨-, -, hrest⟩ := heq
    have hfree : dot ∉ bytes "/cache/" ++ (key.imageName ++ [first]) := by
      rw [List.mem_append, not_or]
      exact ⟨by decide, hhead⟩
    rw [← List.append_assoc (bytes "/cache/")] at hrest
    have hlong : 3 < (bytes "/cache/" ++ after).length := by
      have hseven : (bytes "/cache/").length = 7 := by decide
      rw [List.length_append]
      omega
    have hshort : (bytes "/cache/" ++ after).length ≤ 3 := by
      by_cases hmem : dot ∈ before
      · obtain ⟨front, rest, rfl, hfront⟩ := List.eq_append_cons_of_mem hmem
        rw [List.append_assoc front, List.cons_append] at hrest
        obtain ⟨-, htail⟩ := append_cons_inj hfree hfront hrest
        have hsplit : digits ++ key.ext = (rest ++ [dot]) ++ dot :: (bytes "/cache/" ++ after) := by
          rw [htail]
          simp
        exact length_le_of_append_dot hdigits hsplit
      · obtain ⟨-, htail⟩ := append_cons_inj hfree hmem hrest
        exact @length_le_of_append_dot key digits [] _ hdigits htail
    omega

/-- A cache path that occurs in the end of another one starts it, and the end is the whole path. -/
theorem isPrefix_of_occurs {wanted cached : CacheKey} {text : List Byte}
    (hoccurs : wanted.path arith <:+: text) (hends : text <:+ cached.path arith) :
    wanted.path arith <+: cached.path arith ∧ text = cached.path arith := by
  obtain ⟨before, after, htext⟩ := hoccurs
  obtain ⟨front, hfront⟩ := hends
  obtain ⟨rest, hrest⟩ : ∃ rest, wanted.path arith = imageCache ++ rest :=
    ⟨_, wanted.path_eq arith⟩
  have hsplit : cached.path arith = (front ++ before) ++ (imageCache ++ (rest ++ after)) := by
    rw [← hfront, ← htext, hrest]
    simp only [List.append_assoc]
  obtain ⟨hnoFront, hnoBefore⟩ := List.append_eq_nil_iff.mp (eq_nil_of_path_eq hsplit)
  rw [hnoFront, List.nil_append] at hfront
  rw [hnoBefore, List.nil_append] at htext
  rw [← hfront]
  exact ⟨⟨after, htext⟩, rfl⟩

/-- The wanted path is the start of the cached one and not all of it: the name is the same, and the
extension is cut short, or, behind an empty extension, the numbers are. -/
structure CutShort (arith : Arithmetic) (wanted cached : CacheKey) : Prop where
  imageName_eq : wanted.imageName = cached.imageName
  path_ne : wanted.path arith ≠ cached.path arith
  cut : (wanted.numbers arith = cached.numbers arith ∧ wanted.ext <+: cached.ext) ∨
    (wanted.ext = [] ∧ wanted.numbers arith <+: cached.numbers arith)

/-- A text without the byte that starts the second part is a start of the first part. -/
theorem isPrefix_of_notMem {text first second : List Byte} {byte : Byte} (htext : byte ∉ text)
    (hstart : text <+: first ++ byte :: second) : text <+: first := by
  obtain ⟨rest, hrest⟩ := hstart
  rcases List.append_eq_append_iff.mp hrest with ⟨more, hfirst, -⟩ | ⟨more, rfl, hmore⟩
  · exact ⟨more, hfirst.symm⟩
  · cases more with
    | nil => simp
    | cons other more =>
      rw [List.cons_append, List.cons.injEq] at hmore
      rw [← hmore.1] at htext
      exact absurd (List.mem_append_right _ List.mem_cons_self) htext

/-- What follows a path in a longer one is the rest of its extension or of its numbers. -/
theorem cutShort_of_isPrefix {wanted cached : CacheKey}
    (hstart : wanted.path arith <+: cached.path arith)
    (hne : wanted.path arith ≠ cached.path arith) : CutShort arith wanted cached := by
  obtain ⟨first, digits, hnumbers, hhead, hdigits, -, hpath⟩ := wanted.exists_path_eq arith
  obtain ⟨first', digits', hnumbers', hhead', hdigits', -, hpath'⟩ := cached.exists_path_eq arith
  obtain ⟨rest, hrest⟩ := hstart
  rw [hpath, hpath', List.append_assoc, List.append_right_inj, List.append_assoc,
    List.cons_append] at hrest
  obtain ⟨hname, htail⟩ := append_cons_inj hhead hhead' hrest
  obtain ⟨hname, hfirst⟩ := List.append_inj' hname rfl
  rw [List.cons.injEq] at hfirst
  refine ⟨hname, hne, ?_⟩
  rw [hnumbers, hnumbers', hfirst.1]
  obtain ⟨line, hline⟩ := wanted.accepted
  obtain ⟨line', hline'⟩ := cached.accepted
  rcases (acceptedName_of_parseName hline).ext_cases with ⟨-, hext⟩ | ⟨tail, hext, -⟩
  · -- Without an extension the path ends in its numbers.
    right
    refine ⟨hext, ?_⟩
    have hcut : digits <+: digits' := by
      have hlong : digits <+: digits' ++ cached.ext := by
        rw [← htail, hext, List.append_nil]
        exact List.prefix_append ..
      rcases (acceptedName_of_parseName hline').ext_cases with ⟨-, hext'⟩ | ⟨tail', hext', -⟩
      · rw [hext', List.append_nil] at hlong
        exact hlong
      · rw [hext'] at hlong
        exact isPrefix_of_notMem hdigits hlong
    exact (List.prefix_cons_inj _).mpr ((List.prefix_cons_inj _).mpr hcut)
  · left
    rcases (acceptedName_of_parseName hline').ext_cases with ⟨-, hext'⟩ | ⟨tail', hext', -⟩
    · rw [hext, hext', List.append_nil] at htail
      rw [← htail] at hdigits'
      simp at hdigits'
    · rw [hext, hext', List.append_assoc, List.cons_append] at htail
      obtain ⟨hsame, hmore⟩ := append_cons_inj hdigits hdigits' htail
      rw [hsame, hext, hext', ← hmore]
      exact ⟨rfl, (List.prefix_cons_inj _).mpr (List.prefix_append ..)⟩

/-! ### Runs of insertions and lookups -/

/-- The image that is inserted under a key. -/
def CacheKey.image (arith : Arithmetic) (key : CacheKey) (fd fileSize : ℤ) : CachedImage where
  path := key.path arith
  zero_notMem := key.zero_notMem_path arith
  fd := fd
  fileSize := fileSize

/-- An insertion or a lookup. -/
inductive LookupAction
  | insert (key : CacheKey) (fd fileSize : ℤ)
  | lookup (key : CacheKey)

/-- A lookup that returned `CACHED_IMAGE`: the key that was wanted, the entry of `file_map` with the
index that was found, and the keys that were inserted before. -/
structure Hit where
  wanted : CacheKey
  entry : Option (List Byte)
  inserted : List CacheKey

/-- The cache with the keys that were inserted, and the hits. -/
structure LookupRun where
  cache : ImageCache
  inserted : List CacheKey
  hits : List Hit

/-- An insertion or a lookup, executed alone. -/
def lookupStep (arith : Arithmetic) (state : LookupRun) : LookupAction → Option LookupRun
  | .insert key fd fileSize =>
    (insertImage state.cache (key.image arith fd fileSize)).map fun cache ↦
      { state with cache := cache, inserted := state.inserted ++ [key] }
  | .lookup key =>
    (findFileInCache (key.path arith) state.cache.fileMap).map fun
      | .notCached => state
      | .cached idx =>
        { state with
          hits := state.hits ++ [⟨key, entryAt state.cache.fileMap idx, state.inserted⟩] }

/-- The start of the program. -/
def startLookups : LookupRun where
  cache := emptyCache
  inserted := []
  hits := []

/-- The path of a key was inserted. -/
def Inserted (arith : Arithmetic) (inserted : List CacheKey) (key : CacheKey) : Prop :=
  ∃ other ∈ inserted, other.path arith = key.path arith

/-- Every hit is on an entry that is the wanted path, and the path was inserted before. -/
def NoFalseHits (arith : Arithmetic) (state : LookupRun) : Prop :=
  ∀ hit ∈ state.hits, hit.entry = some (hit.wanted.path arith) ∧
    Inserted arith hit.inserted hit.wanted

/-- An entry that is an inserted path, and that the path looked up cuts short, comes behind an entry
that is the path itself. -/
def NotCutShort (arith : Arithmetic) (state : LookupRun) : LookupAction → Prop
  | .insert _ _ _ => True
  | .lookup key =>
    ∀ cached ∈ state.inserted, CutShort arith key cached →
      ∀ idx, entryAt state.cache.fileMap idx = some (cached.path arith) →
        ∃ before < idx, entryAt state.cache.fileMap before = some (key.path arith)

/-- Every entry of a region is empty or the end of an inserted path. -/
def Fragments (arith : Arithmetic) (inserted : List CacheKey) (region : List Byte) : Prop :=
  ∀ idx text, entryAt region idx = some text → text = [] ∨
    ∃ key ∈ inserted, text <:+ key.path arith

/-- `file_map` is a row of inserted paths up to `seek_cache`, and fragments behind it. -/
structure Fragmented (arith : Arithmetic) (state : LookupRun) (front : List (List Byte))
    (rest : List Byte) : Prop where
  fileMap_eq : state.cache.fileMap = packed front ++ rest
  length_eq : state.cache.fileMap.length = sizeFileListcache
  seekCache_eq : state.cache.seekCache = (packed front).length
  inserted : ∀ text ∈ front, ∃ key ∈ state.inserted, text = key.path arith
  fragments : Fragments arith state.inserted rest
  started : state.inserted ≠ [] → cstring state.cache.fileMap ≠ some []

/-! ### What insertions leave behind -/

theorem fragments_mono {inserted later : List CacheKey} {region : List Byte}
    (hfragments : Fragments arith inserted region) :
    Fragments arith (inserted ++ later) region := by
  intro idx text hentry
  rcases hfragments idx text hentry with hnil | ⟨key, hkey, hends⟩
  · exact Or.inl hnil
  · exact Or.inr ⟨key, List.mem_append_left _ hkey, hends⟩

/-- What is left of fragments are fragments. -/
theorem fragments_drop {inserted : List CacheKey} {region : List Byte}
    (hfragments : Fragments arith inserted region) (count : ℕ) :
    Fragments arith inserted (region.drop count) := by
  intro idx text hentry
  obtain ⟨idx', text', hentry', hends⟩ := exists_entryAt_of_drop hentry
  rcases hfragments idx' text' hentry' with rfl | ⟨key, hkey, hends'⟩
  · exact Or.inl (List.suffix_nil.mp hends)
  · exact Or.inr ⟨key, hkey, hends.trans hends'⟩

/-- Inserted paths in front of fragments are fragments. -/
theorem fragments_packed {inserted : List CacheKey} {front : List (List Byte)} {rest : List Byte}
    (hfront : ∀ text ∈ front, ∃ key ∈ inserted, text = key.path arith)
    (hrest : Fragments arith inserted rest) : Fragments arith inserted (packed front ++ rest) := by
  have hzero : ∀ text ∈ front, (0 : Byte) ∉ text := by
    intro text htext
    obtain ⟨key, -, rfl⟩ := hfront text htext
    exact key.zero_notMem_path arith
  intro idx text hentry
  rw [entryAt_packed_append hzero] at hentry
  split_ifs at hentry with hidx
  · obtain ⟨key, hkey, rfl⟩ := hfront text (List.mem_of_getElem? hentry)
    exact Or.inr ⟨key, hkey, List.suffix_refl _⟩
  · exact hrest _ _ hentry

/-- An insertion writes its path behind the row, over the start of the fragments. -/
theorem fragmented_insert {state : LookupRun} {front : List (List Byte)} {rest : List Byte}
    {key : CacheKey} {fd fileSize : ℤ} {cache : ImageCache}
    (hfragmented : Fragmented arith state front rest)
    (hinsert : insertImage state.cache (key.image arith fd fileSize) = some cache) :
    ∃ front' rest', Fragmented arith { state with
      cache := cache, inserted := state.inserted ++ [key] } front' rest' := by
  have hlength := length_fileMap_insert hinsert hfragmented.length_eq
  simp only [insertImage, Option.ite_none_right_eq_some, Option.some.injEq] at hinsert
  obtain ⟨hroom, rfl⟩ := hinsert
  have hpath : (key.image arith fd fileSize).path = key.path arith := rfl
  rw [hpath] at hroom
  set left := rest.drop (key.path arith ++ [0]).length with hleft
  have hmap : overwrite state.cache.fileMap state.cache.seekCache (key.path arith ++ [0]) =
      packed (front ++ [key.path arith]) ++ left := by
    rw [hfragmented.fileMap_eq, hfragmented.seekCache_eq, overwrite_append, packed_append,
      packed_singleton]
  have hinserted : ∀ text ∈ front ++ [key.path arith],
      ∃ other ∈ state.inserted ++ [key], text = other.path arith := by
    intro text htext
    rcases List.mem_append.mp htext with hold | hnew
    · obtain ⟨other, hother, htext⟩ := hfragmented.inserted text hold
      exact ⟨other, List.mem_append_left _ hother, htext⟩
    · exact ⟨key, List.mem_append_right _ List.mem_cons_self, List.mem_singleton.mp hnew⟩
  have hfragments : Fragments arith (state.inserted ++ [key]) left :=
    fragments_drop (fragments_mono hfragmented.fragments) _
  have hseek : state.cache.seekCache + (key.path arith).length + 1 =
      (packed (front ++ [key.path arith])).length := by
    rw [hfragmented.seekCache_eq, packed_append, List.length_append]
    simp [packed, Nat.add_assoc]
  have hstarted : cstring (overwrite state.cache.fileMap state.cache.seekCache
      (key.path arith ++ [0])) ≠ some [] := by
    obtain ⟨first, others, hfront⟩ : ∃ first others, front ++ [key.path arith] = first :: others :=
      List.exists_cons_of_ne_nil (by simp)
    obtain ⟨other, -, hfirst⟩ := hinserted first (hfront ▸ List.mem_cons_self)
    rw [hmap, hfront, packed_cons, hfirst, cstring_append_zero (other.zero_notMem_path arith),
      ne_eq, Option.some.injEq]
    exact other.path_ne_nil arith
  by_cases hfull : (packed (front ++ [key.path arith])).length = sizeFileListcache
  · -- The region is full, and the next insertion is written at its start.
    refine ⟨[], packed (front ++ [key.path arith]) ++ left, hmap, hlength, ?_, ?_, ?_,
      fun _ ↦ hstarted⟩
    · show (state.cache.seekCache + (key.path arith).length + 1) % sizeFileListcache = _
      rw [hseek, hfull, Nat.mod_self]
      rfl
    · intro text htext
      exact absurd htext List.not_mem_nil
    · exact fragments_packed hinserted hfragments
  · refine ⟨front ++ [key.path arith], left, hmap, hlength, ?_, hinserted, hfragments,
      fun _ ↦ hstarted⟩
    show (state.cache.seekCache + (key.path arith).length + 1) % sizeFileListcache = _
    rw [← hseek] at hfull ⊢
    exact Nat.mod_eq_of_lt (by omega)

/-- The entry of a hit is an inserted path that starts with the wanted one, and no entry before it
is the wanted path. -/
theorem exists_of_hit {state : LookupRun} {front : List (List Byte)} {rest : List Byte}
    {key : CacheKey} {idx : ℕ} (hfragmented : Fragmented arith state front rest)
    (hfind : findFileInCache (key.path arith) state.cache.fileMap = some (.cached idx)) :
    ∃ cached ∈ state.inserted, entryAt state.cache.fileMap idx = some (cached.path arith) ∧
      key.path arith <+: cached.path arith ∧
      ∀ before < idx, ∀ text, entryAt state.cache.fileMap before = some text →
        ¬ key.path arith <:+: text := by
  obtain ⟨text, hentry, hne, hoccurs, hfirst⟩ := findFileInCache_cached hfind
  have hall := fragments_packed hfragmented.inserted hfragmented.fragments
  rw [← hfragmented.fileMap_eq] at hall
  rcases hall idx text hentry with hnil | ⟨cached, hcached, hends⟩
  · exact absurd hnil hne
  · obtain ⟨hstart, rfl⟩ := isPrefix_of_occurs hoccurs hends
    exact ⟨cached, hcached, hentry, hstart, hfirst⟩

/-- A hit after a lookup that meets the condition is on the wanted path, which was inserted. -/
theorem inserted_of_hit {state : LookupRun} {front : List (List Byte)} {rest : List Byte}
    {key : CacheKey} {idx : ℕ} (hfragmented : Fragmented arith state front rest)
    (hguard : NotCutShort arith state (.lookup key))
    (hfind : findFileInCache (key.path arith) state.cache.fileMap = some (.cached idx)) :
    entryAt state.cache.fileMap idx = some (key.path arith) ∧
      Inserted arith state.inserted key := by
  obtain ⟨cached, hcached, hentry, hstart, hfirst⟩ := exists_of_hit hfragmented hfind
  by_cases hsame : key.path arith = cached.path arith
  · exact ⟨hsame ▸ hentry, cached, hcached, hsame.symm⟩
  · obtain ⟨before, hbefore, hearlier⟩ :=
      hguard cached hcached (cutShort_of_isPrefix hstart hsame) idx hentry
    exact absurd (List.infix_refl _) (hfirst before hbefore _ hearlier)

/-- The state between two steps. -/
structure Truthful (arith : Arithmetic) (state : LookupRun) : Prop where
  fragmented : ∃ front rest, Fragmented arith state front rest
  noFalseHits : NoFalseHits arith state

theorem truthful_step (state : LookupRun) (action : LookupAction) (state' : LookupRun)
    (htruthful : Truthful arith state) (hguard : NotCutShort arith state action)
    (hstep : lookupStep arith state action = some state') : Truthful arith state' := by
  obtain ⟨front, rest, hfragmented⟩ := htruthful.fragmented
  cases action with
  | insert key fd fileSize =>
    obtain ⟨cache, hinsert, rfl⟩ := Option.map_eq_some_iff.mp hstep
    exact ⟨fragmented_insert hfragmented hinsert, htruthful.noFalseHits⟩
  | lookup key =>
    obtain ⟨found, hfind, rfl⟩ := Option.map_eq_some_iff.mp hstep
    cases found with
    | notCached => exact htruthful
    | cached idx =>
      refine ⟨⟨front, rest, { hfragmented with }⟩, ?_⟩
      intro hit hmem
      rcases List.mem_append.mp hmem with hold | hnew
      · exact htruthful.noFalseHits hit hold
      · rw [List.mem_singleton.mp hnew]
        exact inserted_of_hit hfragmented hguard hfind

theorem truthful_start : Truthful arith startLookups where
  fragmented :=
    ⟨[], zeros sizeFileListcache,
      { fileMap_eq := rfl
        length_eq := length_zeros _
        seekCache_eq := rfl
        inserted := fun _ hmem ↦ absurd hmem List.not_mem_nil
        fragments := fun _ _ hentry ↦ Or.inl (eq_nil_of_entryAt_zeros hentry)
        started := fun hinserted ↦ absurd rfl hinserted }⟩
  noFalseHits := fun _ hmem ↦ absurd hmem List.not_mem_nil

/-- The start of a path is found where the path is an entry. -/
theorem isPrefix_of_cutShort {wanted cached : CacheKey} (hcut : CutShort arith wanted cached) :
    wanted.path arith <+: cached.path arith := by
  rw [CacheKey.path_eq, CacheKey.path_eq, hcut.imageName_eq, List.prefix_append_right_inj,
    List.prefix_append_right_inj]
  rcases hcut.cut with ⟨hnumbers, hext⟩ | ⟨hext, hnumbers⟩
  · rw [hnumbers, List.prefix_append_right_inj]
    exact hext
  · rw [hext, List.append_nil]
    exact hnumbers.trans (List.prefix_append ..)

/-- A path that is looked up against the condition is a false hit. -/
theorem hits_of_not_notCutShort {state state' : LookupRun} {action : LookupAction}
    {front : List (List Byte)} {rest : List Byte}
    (hfragmented : Fragmented arith state front rest) (hagainst : ¬ NotCutShort arith state action)
    (hstep : lookupStep arith state action = some state') : ¬ NoFalseHits arith state' := by
  cases action with
  | insert key fd fileSize => exact absurd trivial hagainst
  | lookup key =>
    simp only [NotCutShort, not_forall] at hagainst
    obtain ⟨cached, hcached, hcut, idx, hentry, hnone⟩ := hagainst
    have hoccurs := (isPrefix_of_cutShort hcut).isInfix
    obtain ⟨found, hfind, rfl⟩ := Option.map_eq_some_iff.mp hstep
    cases found with
    | notCached =>
      have hfirst := hfragmented.started (List.ne_nil_of_mem hcached)
      have hmissed := findFileInCache_notCached hfragmented.length_eq.le hfirst hfind hentry
      exact absurd hoccurs hmissed
    | cached found =>
      intro hright
      -- The entry found is no later than the one that is cut short, so it is not the path itself.
      have hfound := (hright _ (List.mem_append_right _ List.mem_cons_self)).1
      obtain ⟨-, -, -, -, hfirst⟩ := findFileInCache_cached hfind
      rcases Nat.lt_trichotomy found idx with hless | rfl | hmore
      · exact hnone ⟨found, hless, hfound⟩
      · exact hcut.path_ne (Option.some.inj (hfound.symm.trans hentry))
      · exact hfirst idx hmore _ hentry hoccurs

/-- A false hit is never taken back. -/
theorem noFalseHits_of_run {state final : LookupRun} {actions : List LookupAction}
    (hrun : run (lookupStep arith) state actions = some final) (hright : NoFalseHits arith final) :
    NoFalseHits arith state := by
  have hsubset : ∀ hit ∈ state.hits, hit ∈ final.hits := by
    refine @invariant_of_run _ _ (lookupStep arith)
      (fun final ↦ ∀ hit ∈ state.hits, hit ∈ final.hits)
      ?_ _ _ _ (fun _ hmem ↦ hmem) hrun
    intro before action after hbefore hstep hit hmem
    cases action with
    | insert key fd fileSize =>
      obtain ⟨cache, -, rfl⟩ := Option.map_eq_some_iff.mp hstep
      exact hbefore hit hmem
    | lookup key =>
      obtain ⟨found, -, rfl⟩ := Option.map_eq_some_iff.mp hstep
      cases found with
      | notCached => exact hbefore hit hmem
      | cached idx => exact List.mem_append_left _ (hbefore hit hmem)
  exact fun hit hmem ↦ hright hit (hsubset hit hmem)

/-- Every hit of a run is on the wanted path, and the path was inserted before, exactly when no path
is looked up that cuts an entry short, unless the path is an entry in front of that one. -/
theorem noFalseHits_iff {actions : List LookupAction} {state : LookupRun}
    (hrun : run (lookupStep arith) startLookups actions = some state) :
    NoFalseHits arith state ↔
      Guarded (lookupStep arith) (NotCutShort arith) startLookups actions := by
  constructor
  · intro hright
    by_contra hunguarded
    obtain ⟨first, action, rest, before, after, -, hfirst, hbefore, hagainst, hafter, hlast⟩ :=
      exists_of_not_guarded hunguarded hrun
    obtain ⟨⟨front, left, hfragmented⟩, -⟩ :=
      invariant_of_guarded truthful_step truthful_start hfirst hbefore
    exact hits_of_not_notCutShort hfragmented hagainst hafter (noFalseHits_of_run hlast hright)
  · intro hguarded
    exact (invariant_of_guarded truthful_step truthful_start hguarded hrun).noFalseHits

/-! ### Two extensions -/

/-- The photo in full quality and 100 pixels wide, with the extension of a line. -/
def photoKey (ext : List Byte)
    (haccepted : ∃ line, parseName line = some (.imageRequested (bytes "photo") ext)) :
    CacheKey where
  imageName := bytes "photo"
  ext := ext
  quality := 1
  width := 100
  height := 0
  colors := 0
  beyond := []
  accepted := haccepted

theorem accepted_photoJpg :
    ∃ line, parseName line = some (.imageRequested (bytes "photo") (bytes ".jpg")) :=
  ⟨bytes "GET /?photo.jpg HTTP/1.1", by decide⟩

theorem accepted_photoJ :
    ∃ line, parseName line = some (.imageRequested (bytes "photo") (bytes ".j")) :=
  ⟨bytes "GET /?photo.j HTTP/1.1", by decide⟩

/-- The key of `photo.jpg`. -/
def photoJpg : CacheKey :=
  photoKey (bytes ".jpg") accepted_photoJpg

/-- The key of `photo.j`. -/
def photoJ : CacheKey :=
  photoKey (bytes ".j") accepted_photoJ

/-- The paths that were wanted in the hits, each with the entry found. -/
def hitPaths (state : LookupRun) : List (List Byte × Option (List Byte)) :=
  state.hits.map fun hit ↦ (hit.wanted.path ieee, hit.entry)

/-- The first entry is not taken for another one. -/
theorem notCutShort_of_entryAt_zero {state : LookupRun} {key : CacheKey}
    (hentry : entryAt state.cache.fileMap 0 = some (key.path arith)) :
    NotCutShort arith state (.lookup key) := by
  intro cached _ hcut idx hcached
  refine ⟨0, Nat.pos_of_ne_zero ?_, hentry⟩
  rintro rfl
  exact hcut.path_ne (Option.some.inj (hentry.symm.trans hcached))

/-- The photo with the short extension is inserted first. -/
def orderedPhotos : List LookupAction :=
  [.insert photoJ 4 1000, .insert photoJpg 5 1000]

/-- The lookup of `photo.j` hits the path itself, although `photo.jpg` is in the list, too. -/
theorem noFalseHits_photo :
    ∃ state, run (lookupStep ieee) startLookups (orderedPhotos ++ [.lookup photoJ]) =
      some state ∧ state.hits ≠ [] ∧ NoFalseHits ieee state := by
  obtain ⟨state, hrun, hhits⟩ := Option.map_eq_some_iff.mp
    (show (run (lookupStep ieee) startLookups (orderedPhotos ++ [.lookup photoJ])).map hitPaths =
      some [(photoJ.path ieee, some (photoJ.path ieee))] by decide +kernel)
  have hinserts : Guarded (lookupStep ieee) (NotCutShort ieee) startLookups orderedPhotos :=
    ⟨trivial, fun _ _ ↦ ⟨trivial, fun _ _ ↦ trivial⟩⟩
  have hlookup : ∀ before, run (lookupStep ieee) startLookups orderedPhotos = some before →
      NotCutShort ieee before (.lookup photoJ) := by
    intro before hbefore
    have hentry : (run (lookupStep ieee) startLookups orderedPhotos).map
        (fun state ↦ entryAt state.cache.fileMap 0) = some (some (photoJ.path ieee)) := by
      decide +kernel
    rw [hbefore, Option.map_some, Option.some.injEq] at hentry
    exact notCutShort_of_entryAt_zero hentry
  refine ⟨state, hrun, ?_, (noFalseHits_iff hrun).mpr (guarded_concat hinserts hlookup)⟩
  intro hnil
  rw [hitPaths, hnil] at hhits
  exact absurd hhits (List.cons_ne_nil _ _).symm

/-- The lookup of `photo.j` hits `photo.jpg`. -/
theorem not_noFalseHits :
    ¬ ∀ (actions : List LookupAction) (state : LookupRun),
      run (lookupStep ieee) startLookups actions = some state → NoFalseHits ieee state := by
  intro hright
  obtain ⟨state, hrun, hhits⟩ := Option.map_eq_some_iff.mp
    (show (run (lookupStep ieee) startLookups [.insert photoJpg 4 1000, .lookup photoJ]).map
      hitPaths = some [(photoJ.path ieee, some (photoJpg.path ieee))] by decide +kernel)
  obtain ⟨hit, hstate, hhit⟩ := List.map_eq_singleton_iff.mp hhits
  rw [Prod.mk.injEq] at hhit
  have hentry := (hright _ state hrun hit (hstate ▸ List.mem_cons_self)).1
  rw [hhit.1, hhit.2, Option.some.injEq] at hentry
  exact absurd hentry (by decide +kernel)

end ImageApp.Cache
