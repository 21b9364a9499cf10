import ImageApp.Server.Strings

/-!
# Dimensions of a device

`retrieve_dim_from_DB` of `HandleDB.c` with the cache of queries in front of the database. The
database is a function from the text of a query to the row that it fetches, and a row has text in
its columns, which `parse_int` of `Utils.c` reads.

The function is cut at the mutex of the cache: `searchQueries` is the search under the mutex,
`insertQuery` the insertion under it, and `readQuery` the read of the entry that was found, after
the mutex was released. `parseInt_intText` says that `parse_int` reads a numeric column exactly.
-/

set_option autoImplicit false
set_option relaxedAutoImplicit false

namespace ImageApp.Server

open Foundations.CStrings Foundations.DecimalRows

/-! ### Numbers in columns -/

/-- `isspace`. -/
def isSpace (byte : Byte) : Bool :=
  byte = space || (9 ≤ byte && byte ≤ carriageReturn)

/-- The value of a digit or a letter as a digit of a large base. -/
def digitValue (byte : Byte) : Option ℕ :=
  if 48 ≤ byte ∧ byte ≤ 57 then some (byte.toNat - 48)
  else if 65 ≤ byte ∧ byte ≤ 90 then some (byte.toNat - 55)
  else if 97 ≤ byte ∧ byte ≤ 122 then some (byte.toNat - 87)
  else none

/-- The digits of the base at the start of a text, read after those that make up `value`. -/
def readDigits (base : ℕ) : ℕ → List Byte → ℕ
  | value, [] => value
  | value, byte :: rest =>
    match digitValue byte with
    | some digit => if digit < base then readDigits base (value * base + digit) rest else value
    | none => value

/-- An unsigned number in the base that its first bytes announce. -/
def readMagnitude : List Byte → ℕ
  | 48 :: 120 :: rest | 48 :: 88 :: rest => readDigits 16 0 rest
  | 48 :: rest => readDigits 8 0 rest
  | text => readDigits 10 0 text

/-- `strtol` with base 0; `none` when the number is not a `long` and `errno` is set. -/
def strtol (text : List Byte) : Option ℤ :=
  let value : ℤ :=
    match text.dropWhile isSpace with
    | 45 :: digits => -readMagnitude digits
    | 43 :: digits => readMagnitude digits
    | digits => readMagnitude digits
  if -2 ^ 63 ≤ value ∧ value < 2 ^ 63 then some value else none

/-- `parse_int`. The number is cut to an `int`. -/
def parseInt (text : List Byte) : ℤ :=
  match strtol text with
  | some value => Int.bmod value (2 ^ 32)
  | none => 0

/-- The text of an integer. -/
def intText (value : ℤ) : List Byte :=
  (if value < 0 then bytes "-" else []) ++
    if value = 0 then bytes "0" else numeral value.natAbs

/-- The value is one of an `int`. -/
def IsInt (value : ℤ) : Prop :=
  -2 ^ 31 ≤ value ∧ value < 2 ^ 31

/-! ### Rows and queries -/

/-- A row of the table of devices. The columns with the height, the width and the number of colors
hold integers of the size of an `int`. -/
structure DeviceRow where
  column : ℕ → List Byte
  height : ℤ
  width : ℤ
  colors : ℤ
  column_two : column 2 = intText height
  column_three : column 3 = intText width
  column_seven : column 7 = intText colors
  height_int : IsInt height
  width_int : IsInt width
  colors_int : IsInt colors

/-- The fields that `retrieve_dim_from_DB` sets from the row. -/
structure Dimensions where
  colors : ℤ
  width : ℤ
  height : ℤ
  deriving DecidableEq

/-- What is set when there is no row. -/
def noDimensions : Dimensions where
  colors := 0
  width := 0
  height := 0

/-- What is set after the query was sent to the database. -/
def fetchedDimensions : Option DeviceRow → Dimensions
  | some row =>
    { colors := parseInt (row.column 7)
      width := parseInt (row.column 3)
      height := parseInt (row.column 2) }
  | none => noDimensions

/-- `enum DB_stat`. -/
inductive DBStat
  | noValueInDB
  | valueDB
  deriving DecidableEq

/-- `struct cache_query`, without the quality, which is not used. -/
structure CacheQuery where
  query : List Byte
  state : DBStat
  colors : ℤ
  width : ℤ
  height : ℤ

/-- The cache of queries and its counter, an `unsigned long long`. -/
structure QueryCache where
  cache : Fin 256 → CacheQuery
  idxCache : ℕ

/-- The fields of a request that `retrieve_dim_from_DB` reads. -/
structure DimRequest where
  userAgent : List Byte
  imageName : List Byte
  quality : ℚ

/-- An entry as the program starts. -/
def freeEntry : CacheQuery where
  query := zeros 256
  state := .noValueInDB
  colors := 0
  width := 0
  height := 0

/-- The cache as the program starts. -/
def emptyQueries : QueryCache where
  cache := fun _ ↦ freeEntry
  idxCache := 0

/-- The text in front of the user agent in a query. -/
def queryFront : List Byte :=
  bytes "SELECT * FROM device WHERE useragent LIKE "

/-- The query for a user agent. -/
def deviceQuery (userAgent : List Byte) : List Byte :=
  queryFront ++ bytes "'" ++ userAgent ++ bytes "%';"

/-- The content of `tmp_query`, a buffer of 128 bytes that is left as it is for an empty user agent.
-/
def tmpQuery (userAgent : List Byte) : Option (List Byte) :=
  if userAgent = [] then none
  else if (deviceQuery userAgent).length < 128 then some (deviceQuery userAgent)
  else none

/-! ### The cache of queries -/

/-- The search for a query among the entries with the given indices. -/
def searchQueries (cache : Fin 256 → CacheQuery) (query : List Byte) :
    List (Fin 256) → Option (Option (Fin 256))
  | [] => some none
  | i :: rest =>
    (searchRegion (cache i).query query).bind fun found ↦
      if found then some (some i) else searchQueries cache query rest

/-- The loop over all 256 entries. -/
def searchCache (cache : Fin 256 → CacheQuery) (query : List Byte) : Option (Option (Fin 256)) :=
  searchQueries cache query (List.finRange 256)

theorem mod_size_lt (idxCache : ℕ) : idxCache % 256 < 256 :=
  Nat.mod_lt _ (by decide)

/-- The index of the entry that is written next. -/
def nextSlot (idxCache : ℕ) : Fin 256 :=
  ⟨idxCache % 256, mod_size_lt idxCache⟩

/-- The insertion of a query with the dimensions that the request was given. -/
def insertQuery (queries : QueryCache) (query : List Byte) (dimensions : Dimensions)
    (state : DBStat) : QueryCache where
  cache := Function.update queries.cache (nextSlot queries.idxCache)
    { query := overwrite (queries.cache (nextSlot queries.idxCache)).query 0 (query ++ [0])
      state := state
      colors := dimensions.colors
      width := dimensions.width
      height := dimensions.height }
  idxCache := (queries.idxCache + 1) % 2 ^ 64

/-- The state that is stored with a query. -/
def storedState : Option DeviceRow → DBStat
  | some _ => .valueDB
  | none => .noValueInDB

/-- The read of an entry that was found. -/
def readQuery (queries : QueryCache) (i : Fin 256) : Dimensions where
  colors := (queries.cache i).colors
  width := (queries.cache i).width
  height := (queries.cache i).height

/-- What `retrieve_dim_from_DB` sets and does: the cache afterwards, the dimensions and the key of
the request, and the queries that were sent to the database. -/
structure Retrieval where
  queries : QueryCache
  dimensions : Dimensions
  cacheName : List Byte
  sent : List (List Byte)

/-- `retrieve_dim_from_DB`. -/
def retrieveDimFromDB (arith : Arithmetic) (beyond : List Byte)
    (db : List Byte → Option DeviceRow) (queries : QueryCache) (request : DimRequest) :
    Option Retrieval :=
  let named := fun (queries : QueryCache) (dimensions : Dimensions) (sent : List (List Byte)) ↦
    { queries := queries
      dimensions := dimensions
      cacheName := buildImageNameCache arith beyond request.imageName request.quality
        dimensions.width dimensions.height dimensions.colors
      sent := sent : Retrieval }
  (tmpQuery request.userAgent).bind fun query ↦
    (searchCache queries.cache query).map fun
      | none =>
        let dimensions := fetchedDimensions (db query)
        named (insertQuery queries query dimensions (storedState (db query))) dimensions [query]
      | some i =>
        if (queries.cache i).state = .noValueInDB then named queries noDimensions []
        else named queries (readQuery queries i) []

/-! ### What the columns read as -/

/-- A digit byte has the value of its digit. -/
theorem digitValue_digitByte {digit : ℕ} (hdigit : digit < 10) :
    digitValue (digitByte digit) = some digit := by
  interval_cases digit <;> decide

/-- The digits of a numeral are read as its number. -/
theorem readDigits_numeral (value : ℕ) (rest : List Byte) :
    readDigits 10 0 (numeral value ++ rest) = readDigits 10 value rest := by
  induction value using Nat.strongRecOn generalizing rest with
  | ind value ih =>
    by_cases hzero : value = 0
    · simp [hzero]
    · have hpos : 0 < value := by omega
      have hlast : value % 10 < 10 := Nat.mod_lt _ (by decide)
      rw [numeral_of_pos hpos, List.append_assoc, List.singleton_append, ih _ (by omega),
        readDigits, digitValue_digitByte hlast]
      simp only [if_pos hlast]
      congr 1
      omega

/-- The numeral of a positive number starts with a digit other than zero. -/
theorem exists_numeral_eq_cons {value : ℕ} (hpos : 0 < value) :
    ∃ digit rest, numeral value = digitByte digit :: rest ∧ 0 < digit ∧ digit < 10 := by
  induction value using Nat.strongRecOn with
  | ind value ih =>
    rw [numeral_of_pos hpos]
    by_cases hsmall : value < 10
    · refine ⟨value, [], ?_, hpos, hsmall⟩
      rw [Nat.div_eq_of_lt hsmall, Nat.mod_eq_of_lt hsmall, numeral_zero, List.nil_append]
    · obtain ⟨digit, rest, hrest, hdigit⟩ := ih (value / 10) (by omega) (by omega)
      exact ⟨digit, rest ++ [digitByte (value % 10)], by rw [hrest, List.cons_append], hdigit⟩

/-- A text does not go on with a digit. -/
def NoDigit (text : List Byte) : Prop :=
  ∀ byte ∈ text.head?, digitValue byte = none

theorem noDigit_nil : NoDigit [] :=
  fun _ hbyte ↦ absurd hbyte (Option.not_mem_none _)

/-- No digits are read where there is none. -/
theorem readDigits_of_noDigit (base value : ℕ) {rest : List Byte} (hrest : NoDigit rest) :
    readDigits base value rest = value := by
  cases rest with
  | nil => rfl
  | cons byte rest => rw [readDigits, hrest byte rfl]

/-- The digits of a positive number are taken as decimal ones. -/
theorem readMagnitude_numeral {value : ℕ} (hpos : 0 < value) {rest : List Byte}
    (hrest : NoDigit rest) : readMagnitude (numeral value ++ rest) = value := by
  obtain ⟨digit, digits, hnumeral, hdigit, hten⟩ := exists_numeral_eq_cons hpos
  have hread := readDigits_numeral value rest
  rw [readDigits_of_noDigit _ _ hrest] at hread
  rw [hnumeral, List.cons_append] at hread ⊢
  have hne : digitByte digit ≠ 48 := by
    intro heq
    have hvalue := congrArg UInt8.toNat heq
    rw [toNat_digitByte hten] at hvalue
    simp at hvalue
    omega
  unfold readMagnitude
  split
  · rename_i heq
    exact absurd (List.cons.inj heq).1 hne
  · rename_i heq
    exact absurd (List.cons.inj heq).1 hne
  · rename_i heq
    exact absurd (List.cons.inj heq).1 hne
  · exact hread

/-- A zero that no digits or letters follow is read as such. -/
theorem readMagnitude_zero {rest : List Byte} (hrest : NoDigit rest) :
    readMagnitude (48 :: rest) = 0 := by
  have hletters : digitValue 120 ≠ none ∧ digitValue 88 ≠ none := by decide
  unfold readMagnitude
  split
  · rename_i heq
    rw [(List.cons.inj heq).2] at hrest
    exact absurd (hrest 120 rfl) hletters.1
  · rename_i heq
    rw [(List.cons.inj heq).2] at hrest
    exact absurd (hrest 88 rfl) hletters.2
  · rename_i heq
    rw [← (List.cons.inj heq).2, readDigits_of_noDigit _ _ hrest]
  · rename_i hother
    exact absurd rfl (hother rest)

/-- White space in front of a number is passed over. -/
theorem strtol_append {blanks : List Byte} (hblanks : ∀ byte ∈ blanks, isSpace byte)
    (text : List Byte) : strtol (blanks ++ text) = strtol text := by
  rw [strtol, List.dropWhile_append_of_pos hblanks, ← strtol]

/-- `strtol` reads the text of an `int` as its value. -/
theorem strtol_intText {value : ℤ} (hint : IsInt value) {rest : List Byte} (hrest : NoDigit rest) :
    strtol (intText value ++ rest) = some value := by
  obtain ⟨hlow, hhigh⟩ := hint
  have hfits : -2 ^ 63 ≤ value ∧ value < 2 ^ 63 := by omega
  rcases lt_trichotomy value 0 with hneg | rfl | hpos
  · have hread : readMagnitude (numeral value.natAbs ++ rest) = value.natAbs :=
      readMagnitude_numeral (by omega) hrest
    have hback : -(value.natAbs : ℤ) = value := by omega
    have hminus : intText value ++ rest = 45 :: (numeral value.natAbs ++ rest) := by
      rw [intText, if_pos hneg, if_neg (by omega)]
      rfl
    have hstart : (45 :: (numeral value.natAbs ++ rest)).dropWhile isSpace =
        45 :: (numeral value.natAbs ++ rest) := by
      rw [List.dropWhile_cons_of_neg (by decide)]
    rw [strtol, hminus, hstart]
    simp only [hread, hback, if_pos hfits]
  · have hzero : intText 0 ++ rest = 48 :: rest := rfl
    have hstart : (48 :: rest).dropWhile isSpace = 48 :: rest := by
      rw [List.dropWhile_cons_of_neg (by decide)]
    rw [strtol, hzero, hstart]
    simp [readMagnitude_zero hrest]
  · have hread : readMagnitude (numeral value.natAbs ++ rest) = value.natAbs :=
      readMagnitude_numeral (by omega) hrest
    have hback : (value.natAbs : ℤ) = value := by omega
    have hplain : intText value = numeral value.natAbs := by
      rw [intText, if_neg (by omega), if_neg (by omega), List.nil_append]
    obtain ⟨digit, digits, hnumeral, -, hten⟩ :=
      @exists_numeral_eq_cons value.natAbs (by omega)
    have hdigit : ∀ digit < 10, isSpace (digitByte digit) = false ∧ digitByte digit ≠ 45 ∧
        digitByte digit ≠ 43 := by decide
    obtain ⟨hspace, hminus, hplus⟩ := hdigit digit hten
    have hstart : (numeral value.natAbs ++ rest).dropWhile isSpace =
        numeral value.natAbs ++ rest := by
      rw [hnumeral, List.cons_append, List.dropWhile_cons_of_neg (by simp [hspace])]
    rw [strtol, hplain, hstart]
    split
    · rename_i heq
      rw [hnumeral] at heq
      exact absurd (List.cons.inj heq).1 hminus
    · rename_i heq
      rw [hnumeral] at heq
      exact absurd (List.cons.inj heq).1 hplus
    · rw [hread, hback, if_pos hfits]

/-- `parse_int` reads an `int` between white space and a byte that is no digit exactly. -/
theorem parseInt_append {value : ℤ} (hint : IsInt value) {blanks rest : List Byte}
    (hblanks : ∀ byte ∈ blanks, isSpace byte) (hrest : NoDigit rest) :
    parseInt (blanks ++ (intText value ++ rest)) = value := by
  rw [parseInt, strtol_append hblanks, strtol_intText hint hrest]
  obtain ⟨hlow, hhigh⟩ := hint
  show Int.bmod value (2 ^ 32) = value
  rw [Int.bmod_eq_of_le] <;> omega

/-- `parse_int` reads a numeric column exactly. -/
theorem parseInt_intText {value : ℤ} (hint : IsInt value) : parseInt (intText value) = value := by
  have hread := parseInt_append hint (fun _ hbyte ↦ absurd hbyte List.not_mem_nil) noDigit_nil
  rwa [List.nil_append, List.append_nil] at hread

/-- The dimensions of the answer of the database. -/
def dimensionsOf : Option DeviceRow → Dimensions
  | some row => { colors := row.colors, width := row.width, height := row.height }
  | none => noDimensions

/-- What is set after the query was sent are the dimensions of the answer. -/
@[simp] theorem fetchedDimensions_eq (answer : Option DeviceRow) :
    fetchedDimensions answer = dimensionsOf answer := by
  cases answer with
  | none => rfl
  | some row =>
    rw [fetchedDimensions, dimensionsOf, row.column_seven, row.column_three, row.column_two,
      parseInt_intText row.colors_int, parseInt_intText row.width_int,
      parseInt_intText row.height_int]

end ImageApp.Server
