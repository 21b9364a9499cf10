import ImageApp.Foundations.Tokens
import ImageApp.Server.ConfigFile

/-!
# What a configuration sets

A configuration is a list of lines. A line is a setting, which has a key, blanks and a number, or it
is some other line, in which no key occurs. `parse_config_file` finds a key anywhere in a line, and
the numbers of other lines are parsed as well, but a setting sets exactly its own parameter,
`parseConfigIteration_setting`, and other lines set nothing. After the last line every parameter has
the value of the last setting with its key, `reads_lastValue`.
-/

set_option autoImplicit false
set_option relaxedAutoImplicit false

namespace ImageApp.Startup

open Foundations.CStrings Foundations.DecimalRows Foundations.LineStreams Foundations.LoopRuns
open Foundations.Tokens Server Server.Senders

/-! ### Lines -/

/-- The keys that `check_parameter` looks for. -/
inductive Key
  | numThreadPoolStart
  | maxConnectionDb
  | sizePool
  | servPort
  | backlog
  deriving DecidableEq, Repr

namespace Key

/-- A key as it is written. -/
def text : Key → List Byte
  | .numThreadPoolStart => bytes "NUM_THREAD_POOL_START"
  | .maxConnectionDb => bytes "MAX_CONNECTION_DB"
  | .sizePool => bytes "SIZE_POOL"
  | .servPort => bytes "SERV_PORT"
  | .backlog => bytes "BACKLOG"

/-- The parameter of a key. -/
def parameter : Key → ParametersConf
  | .numThreadPoolStart => .numberThread
  | .maxConnectionDb => .maxConn
  | .sizePool => .sizePool
  | .servPort => .portServ
  | .backlog => .backlog

/-- The value of the parameter of a key. -/
def value : Key → Parameters → ℤ
  | .numThreadPoolStart, parameters => parameters.numThreadPool
  | .maxConnectionDb, parameters => parameters.maxConnDb
  | .sizePool, parameters => parameters.sizePool
  | .servPort, parameters => parameters.servPort
  | .backlog, parameters => parameters.backlog

end Key

/-- A line that sets a parameter: its key, blanks or tabs, and a number that is an `int`. -/
structure Setting where
  key : Key
  blanks : List Byte
  value : ℕ
  blanks_ne_nil : blanks ≠ []
  blanks_blank : ∀ byte ∈ blanks, byte = 32 ∨ byte = 9
  value_int : value < 2 ^ 31
  short : (key.text ++ (blanks ++ intText value)).length < 511

/-- The text of a setting. -/
def Setting.text (line : Setting) : List Byte :=
  line.key.text ++ (line.blanks ++ intText line.value)

/-- A line without any key. -/
structure OtherLine where
  text : List Byte
  no_newline : newline ∉ text
  no_key : ∀ key : Key, ¬ key.text <:+: text
  short : text.length < 511

/-- A line of a configuration. -/
inductive ConfigLine
  | setting (line : Setting)
  | other (line : OtherLine)

namespace ConfigLine

/-- A line without its newline. -/
def text : ConfigLine → List Byte
  | .setting line => line.text
  | .other line => line.text

/-- The number that a line has for a key. -/
def valueFor (key : Key) : ConfigLine → Option ℕ
  | .setting line => if line.key = key then some line.value else none
  | .other _ => none

/-- The parameters after a line. -/
def apply (parameters : Parameters) : ConfigLine → Parameters
  | .setting line => parameters.assign line.value (some line.key.parameter)
  | .other _ => parameters

end ConfigLine

/-- The file with these lines. -/
def fileOf (lines : List ConfigLine) : List Byte :=
  lines.flatMap fun line ↦ line.text ++ [newline]

/-- The numbers that the lines of a configuration have for a key, in their order. -/
def valuesFor (key : Key) (lines : List ConfigLine) : List ℕ :=
  lines.filterMap (ConfigLine.valueFor key)

/-! ### Keys in a line -/

/-- There is no blank, newline or NUL in a key. -/
theorem Key.notMem_text (key : Key) :
    (32 : Byte) ∉ key.text ∧ (9 : Byte) ∉ key.text ∧ newline ∉ key.text ∧
      (0 : Byte) ∉ key.text := by
  cases key <;> decide

/-- A key starts with a capital letter. -/
theorem Key.exists_letter (key : Key) : ∃ byte ∈ key.text, 65 ≤ byte.toNat := by
  cases key <;> decide

/-- No key occurs in another one. -/
theorem Key.isInfix_text_iff (key other : Key) : other.text <:+: key.text ↔ other = key := by
  cases key <;> cases other <;> decide +kernel

/-- The keys in the order in which `check_parameter` looks for them. -/
def Key.inOrder : List Key :=
  [.numThreadPoolStart, .maxConnectionDb, .sizePool, .servPort, .backlog]

/-- `check_parameter` takes the first key that occurs in the line. -/
theorem parameterOf_eq (line : List Byte) :
    parameterOf line =
      (Key.inOrder.find? fun key ↦ (strstr line key.text).isSome).map Key.parameter := by
  simp only [parameterOf, Key.inOrder, List.find?_cons, List.find?_nil, Key.text]
  split_ifs with hthread hconn hpool hport hbacklog
  · simp [hthread, Key.parameter]
  · simp [hthread, hconn, Key.parameter]
  · simp [hthread, hconn, hpool, Key.parameter]
  · simp [hthread, hconn, hpool, hport, Key.parameter]
  · simp [hthread, hconn, hpool, hport, hbacklog, Key.parameter]
  · simp [hthread, hconn, hpool, hport, hbacklog]

/-- The only key in a line is found. -/
theorem parameterOf_of_key {line : List Byte} {key : Key}
    (honly : ∀ other : Key, other.text <:+: line ↔ other = key) :
    parameterOf line = some key.parameter := by
  have hsearch : (fun other : Key ↦ (strstr line other.text).isSome) =
      fun other ↦ decide (other = key) := by
    funext other
    rw [Bool.eq_iff_iff, isSome_strstr, honly, decide_eq_true_iff]
  rw [parameterOf_eq, hsearch]
  cases key <;> rfl

/-- Nothing is found in a line without a key. -/
theorem parameterOf_of_no_key {line : List Byte} (hnone : ∀ key : Key, ¬ key.text <:+: line) :
    parameterOf line = none := by
  have hsearch : (fun key : Key ↦ (strstr line key.text).isSome) = fun _ ↦ false := by
    funext key
    rw [Bool.eq_false_iff, ne_eq, isSome_strstr]
    exact hnone key
  rw [parameterOf_eq, hsearch]
  rfl

/-! ### A setting -/

/-- The bytes of a number are digits. -/
theorem exists_digit_of_mem_intText {value : ℕ} {byte : Byte} (hbyte : byte ∈ intText value) :
    ∃ digit < 10, byte = digitByte digit := by
  rw [intText, if_neg (by omega), List.nil_append, Int.natAbs_natCast] at hbyte
  split_ifs at hbyte with hzero
  · exact ⟨0, by decide, List.mem_singleton.mp hbyte⟩
  · exact exists_digit_of_mem_numeral hbyte

variable (line : Setting)

/-- The bytes behind the key of a setting are no capital letters, and there is no newline or NUL
among them. -/
theorem Setting.low_of_mem {byte : Byte} (hbyte : byte ∈ line.blanks ++ intText line.value) :
    byte.toNat < 65 ∧ byte ≠ newline ∧ byte ≠ 0 := by
  rcases List.mem_append.mp hbyte with hblank | hdigit
  · rcases line.blanks_blank byte hblank with rfl | rfl
    · decide
    · decide
  · obtain ⟨digit, hten, rfl⟩ := exists_digit_of_mem_intText hdigit
    have hdigits : ∀ digit < 10, (digitByte digit).toNat < 65 ∧ digitByte digit ≠ newline ∧
        digitByte digit ≠ 0 := by decide
    exact hdigits digit hten

theorem Setting.newline_notMem : newline ∉ line.text := by
  rw [Setting.text, List.mem_append, not_or]
  exact ⟨line.key.notMem_text.2.2.1, fun hmem ↦ (line.low_of_mem hmem).2.1 rfl⟩

theorem Setting.zero_notMem : (0 : Byte) ∉ line.text ++ [newline] := by
  rw [List.mem_append, Setting.text, List.mem_append, not_or, not_or]
  exact ⟨⟨line.key.notMem_text.2.2.2, fun hmem ↦ (line.low_of_mem hmem).2.2 rfl⟩, by decide⟩

/-- The only key in a setting is its own. -/
theorem Setting.isInfix_iff (other : Key) :
    other.text <:+: line.text ++ [newline] ↔ other = line.key := by
  obtain ⟨blank, blanks, hblanks⟩ := List.exists_cons_of_ne_nil line.blanks_ne_nil
  have hblank : blank ∉ other.text := by
    rcases line.blanks_blank blank (hblanks ▸ List.mem_cons_self) with rfl | rfl
    · exact other.notMem_text.1
    · exact other.notMem_text.2.1
  have hbehind : ¬ other.text <:+: blanks ++ (intText line.value ++ [newline]) := by
    intro hoccurs
    obtain ⟨byte, hbyte, hletter⟩ := other.exists_letter
    have hmem := hoccurs.subset hbyte
    rw [← List.append_assoc, List.mem_append, List.mem_singleton] at hmem
    rcases hmem with hline | rfl
    · have hlow := @Setting.low_of_mem line byte (hblanks ▸ List.mem_cons_of_mem blank hline)
      omega
    · exact absurd hletter (by decide)
  have hsplit : line.text ++ [newline] =
      line.key.text ++ blank :: (blanks ++ (intText line.value ++ [newline])) := by
    rw [Setting.text, hblanks]
    simp
  rw [hsplit, infix_append_cons_iff hblank, or_iff_left hbehind, Key.isInfix_text_iff]

/-- The scan stops behind the key. -/
theorem scanValue_append {text : List Byte}
    (htext : (32 : Byte) ∉ text ∧ (9 : Byte) ∉ text ∧ newline ∉ text) {blank : Byte}
    (hblank : blank = 32 ∨ blank = 9) (rest : List Byte) :
    scanValue (text ++ blank :: rest) = some text.length := by
  induction text with
  | nil =>
    have hstop : ¬ (blank ≠ 32 ∧ blank ≠ 9 ∧ blank ≠ 10) := by tauto
    rw [List.nil_append, scanValue, if_neg hstop, List.length_nil]
  | cons byte text ih =>
    simp only [List.mem_cons, not_or] at htext
    have hgo : byte ≠ 32 ∧ byte ≠ 9 ∧ byte ≠ 10 :=
      ⟨Ne.symm htext.1.1, Ne.symm htext.2.1.1, Ne.symm htext.2.2.1⟩
    rw [List.cons_append, scanValue, if_pos hgo, ih ⟨htext.1.2, htext.2.1.2, htext.2.2.2⟩,
      Option.map_some, List.length_cons]

/-- The number of a setting is parsed behind its key. -/
theorem Setting.parseInt_eq (left : List Byte) :
    parseInt (untilNul ((line.text ++ [newline] ++ 0 :: left).drop line.key.text.length)) =
      line.value := by
  have hspaces : ∀ byte ∈ line.blanks, isSpace byte = true := by
    intro byte hbyte
    rcases line.blanks_blank byte hbyte with rfl | rfl
    · decide
    · decide
  have hint : IsInt line.value := ⟨by omega, by exact_mod_cast line.value_int⟩
  have hend : NoDigit [newline] := by
    intro byte hbyte
    obtain rfl := Option.mem_some_iff.mp hbyte
    decide
  have hdrop : (line.text ++ [newline] ++ 0 :: left).drop line.key.text.length =
      line.blanks ++ (intText line.value ++ [newline]) ++ 0 :: left := by
    rw [Setting.text, List.append_assoc, List.append_assoc, List.drop_left' rfl]
    simp
  have hzero : (0 : Byte) ∉ line.blanks ++ (intText line.value ++ [newline]) := by
    intro hmem
    rw [← List.append_assoc] at hmem
    refine line.zero_notMem ?_
    rw [Setting.text, List.append_assoc]
    exact List.mem_append_right _ hmem
  rw [hdrop, untilNul_append_zero hzero, parseInt_append hint hspaces hend]

/-- A setting sets its parameter. -/
theorem parseConfigIteration_setting (rest bufLine : List Byte) (parameters : Parameters) :
    parseConfigIteration ⟨⟨line.text ++ newline :: rest, false⟩, bufLine, parameters⟩ =
      .running ⟨⟨rest, false⟩, zeros 512, (ConfigLine.setting line).apply parameters⟩ := by
  have hshort : line.text.length < 511 := line.short
  obtain ⟨left, hstore⟩ := exists_storeLine bufLine (line.text ++ [newline]) (by simp; omega)
  obtain ⟨blank, blanks, hblanks⟩ := List.exists_cons_of_ne_nil line.blanks_ne_nil
  have hscan : scanValue (line.text ++ [newline] ++ 0 :: left) = some line.key.text.length := by
    obtain ⟨hspace, htab, hnewline, -⟩ := line.key.notMem_text
    rw [Setting.text, hblanks, List.append_assoc, List.append_assoc]
    exact scanValue_append ⟨hspace, htab, hnewline⟩
      (line.blanks_blank blank (hblanks ▸ List.mem_cons_self)) _
  have hcheck : checkParameter (line.text ++ [newline] ++ 0 :: left) =
      some (some line.key.parameter, line.key.text.length) := by
    rw [checkParameter, cstring_append_zero line.zero_notMem, Option.map_some,
      parameterOf_of_key line.isInfix_iff, hscan]
    rfl
  rw [parseConfigIteration_of_line line.newline_notMem hshort hstore hcheck, line.parseInt_eq left]
  rfl

/-! ### The other lines -/

/-- A line without a key sets nothing, whatever is parsed in it. -/
theorem parseConfigIteration_other (line : OtherLine) (rest bufLine : List Byte)
    (parameters : Parameters) :
    parseConfigIteration ⟨⟨line.text ++ newline :: rest, false⟩, bufLine, parameters⟩ =
      .running ⟨⟨rest, false⟩, zeros 512, parameters⟩ := by
  obtain ⟨left, hstore⟩ := exists_storeLine bufLine (line.text ++ [newline])
    (by have hshort := line.short; simp; omega)
  have hcheck : checkParameter (line.text ++ [newline] ++ 0 :: left) = some (none, 0) := by
    have hzero : (0 : Byte) ∈ line.text ++ [newline] ++ 0 :: left :=
      List.mem_append_right _ List.mem_cons_self
    have hstring := untilNul_append_zero_prefix (line.text ++ [newline]) left
    have hnone : ∀ key : Key, ¬ key.text <:+: untilNul (line.text ++ [newline] ++ 0 :: left) := by
      intro key hoccurs
      have hwhole := (infix_append_cons_iff key.notMem_text.2.2.1).mp
        (hoccurs.trans hstring.isInfix)
      rcases hwhole with hhere | hempty
      · exact line.no_key key hhere
      · obtain ⟨byte, hbyte, -⟩ := key.exists_letter
        exact absurd (hempty.subset hbyte) List.not_mem_nil
    rw [checkParameter, cstring, if_pos hzero, Option.map_some, parameterOf_of_no_key hnone]
  rw [parseConfigIteration_of_line line.no_newline line.short hstore hcheck]
  rfl

/-! ### A whole configuration -/

/-- A line is read in one iteration. -/
theorem parseConfigIteration_line (line : ConfigLine) (rest bufLine : List Byte)
    (parameters : Parameters) :
    parseConfigIteration ⟨⟨line.text ++ newline :: rest, false⟩, bufLine, parameters⟩ =
      .running ⟨⟨rest, false⟩, zeros 512, line.apply parameters⟩ := by
  cases line with
  | setting line => exact parseConfigIteration_setting line rest bufLine parameters
  | other line => exact parseConfigIteration_other line rest bufLine parameters

/-- `parse_config_file` reads the lines one after another. -/
theorem parseConfigFile_lines (lines : List ConfigLine) (bufLine : List Byte)
    (start : Parameters) :
    ParseConfigFile (fileOf lines) bufLine start (lines.foldl ConfigLine.apply start) := by
  induction lines generalizing bufLine start with
  | nil => exact ⟨2, _, after_parseConfigIteration_nil rfl, rfl⟩
  | cons line lines ih =>
    obtain ⟨n, s, hafter, hfinal⟩ := ih (zeros 512) (line.apply start)
    have hfile : fileOf (line :: lines) = line.text ++ newline :: fileOf lines := by
      simp [fileOf]
    refine ⟨1 + n, s, ?_, hfinal⟩
    rw [hfile, after_one_add (parseConfigIteration_line line (fileOf lines) bufLine start), hafter]

/-- A parameter that is set has its new value, and the others have theirs. -/
theorem Key.value_assign (key other : Key) (parameters : Parameters) {num : ℕ}
    (hnum : num < 2 ^ 31) :
    key.value (parameters.assign num (some other.parameter)) =
      if other = key then (num : ℤ) else key.value parameters := by
  have hsize : unsignedLong num = num := unsignedLong_natCast (hnum.trans (by norm_num))
  cases key <;> cases other <;> simp [Key.value, Parameters.assign, Key.parameter, hsize]

/-- The parameter of a key after a line. -/
theorem Key.value_apply (key : Key) (line : ConfigLine) (parameters : Parameters) :
    key.value (line.apply parameters) = ((line.valueFor key).map Nat.cast).getD
      (key.value parameters) := by
  cases line with
  | setting line =>
    rw [ConfigLine.apply, key.value_assign _ _ line.value_int, ConfigLine.valueFor]
    split_ifs with hkey
    · rfl
    · rfl
  | other line => rfl

/-- The parameter of a key after all lines is its last value, or as it was. -/
theorem Key.value_foldl (key : Key) (lines : List ConfigLine) (start : Parameters) :
    key.value (lines.foldl ConfigLine.apply start) =
      ((valuesFor key lines).getLast?.map Nat.cast).getD (key.value start) := by
  induction lines using List.reverseRecOn with
  | nil => rfl
  | append_singleton lines line ih =>
    rw [List.foldl_append, List.foldl_cons, List.foldl_nil, key.value_apply, ih, valuesFor,
      valuesFor, List.filterMap_append]
    cases hvalue : line.valueFor key with
    | none => simp [hvalue]
    | some num => simp [hvalue]

/-- A configuration sets nothing but the parameters of the keys. -/
theorem sizeArrfd_foldl (lines : List ConfigLine) (start : Parameters) :
    (lines.foldl ConfigLine.apply start).sizeArrfd = start.sizeArrfd := by
  induction lines generalizing start with
  | nil => rfl
  | cons line lines ih =>
    rw [List.foldl_cons, ih]
    cases line with
    | setting line =>
      rw [ConfigLine.apply]
      cases line.key <;> rfl
    | other line => rfl

/-- The parameters are determined by the values for the keys, and the one without a key. -/
theorem parameters_ext {first second : Parameters}
    (hkeys : ∀ key : Key, key.value first = key.value second)
    (hsizeArrfd : first.sizeArrfd = second.sizeArrfd) : first = second := by
  have hthread := hkeys .numThreadPoolStart
  have hconn := hkeys .maxConnectionDb
  have hpool := hkeys .sizePool
  have hport := hkeys .servPort
  have hbacklog := hkeys .backlog
  obtain ⟨threads, connections, backlog, port, pool, arrfd⟩ := first
  simp only [Key.value, Nat.cast_inj] at hthread hconn hpool hport hbacklog hsizeArrfd
  rw [hthread, hconn, hpool, hport, hbacklog, hsizeArrfd]

/-- A configuration is read to its end, and it leaves every parameter at the value of the last line
with its key. With the lines in another order, but those of each key in the same one, it has the
same result and no other. -/
theorem reads_lastValue (lines : List ConfigLine) (bufLine : List Byte) (start : Parameters) :
    ∃ final, ParseConfigFile (fileOf lines) bufLine start final ∧
      (∀ key : Key, key.value final =
        ((valuesFor key lines).getLast?.map Nat.cast).getD (key.value start)) ∧
      final.sizeArrfd = start.sizeArrfd ∧
      ∀ lines' bufLine' final', (∀ key, valuesFor key lines' = valuesFor key lines) →
        (ParseConfigFile (fileOf lines') bufLine' start final' ↔ final' = final) := by
  refine ⟨_, parseConfigFile_lines lines bufLine start, fun key ↦ key.value_foldl lines start,
    sizeArrfd_foldl lines start, fun lines' bufLine' final' hsame ↦ ?_⟩
  have hfinal : lines'.foldl ConfigLine.apply start = lines.foldl ConfigLine.apply start := by
    refine parameters_ext (fun key ↦ ?_) ?_
    · rw [key.value_foldl, key.value_foldl, hsame key]
    · rw [sizeArrfd_foldl, sizeArrfd_foldl]
  have hread := parseConfigFile_lines lines' bufLine' start
  rw [hfinal] at hread
  constructor
  · exact fun hother ↦ hother.unique hread
  · rintro rfl
    exact hread

/-! ### A configuration with two sizes -/

/-- The global variables before the configuration is read. -/
def unsetParameters : Parameters where
  numThreadPool := 0
  maxConnDb := 0
  backlog := 0
  servPort := 0
  sizePool := 0
  sizeArrfd := 0

/-- A line that says what comes next. -/
def poolComment : OtherLine where
  text := bytes "# pools"
  no_newline := by decide
  no_key := by
    intro key
    cases key <;> decide
  short := by decide

/-- The pools at first. -/
def twoPools : Setting where
  key := .sizePool
  blanks := [32]
  value := 2
  blanks_ne_nil := List.cons_ne_nil _ _
  blanks_blank := by simp
  value_int := by norm_num
  short := by decide

/-- The pools in a later line. -/
def fourPools : Setting where
  key := .sizePool
  blanks := [32, 9]
  value := 4
  blanks_ne_nil := List.cons_ne_nil _ _
  blanks_blank := by simp
  value_int := by norm_num
  short := by decide

/-- The port, behind a tab. -/
def httpPort : Setting where
  key := .servPort
  blanks := [9]
  value := 8080
  blanks_ne_nil := List.cons_ne_nil _ _
  blanks_blank := by simp
  value_int := by norm_num
  short := by decide

/-- The lines of a configuration. -/
def twoSizes : List ConfigLine :=
  [.other poolComment, .setting twoPools, .setting httpPort, .setting fourPools]

/-- The same lines with the port in front. -/
def portFirst : List ConfigLine :=
  [.setting httpPort, .other poolComment, .setting twoPools, .setting fourPools]

/-- The later size counts, also when the port comes in front of everything else. -/
theorem reads_lastValue_sizePool :
    ∃ final,
      ParseConfigFile (bytes "# pools\nSIZE_POOL 2\nSERV_PORT\t8080\nSIZE_POOL \t4\n") (zeros 512)
        unsetParameters final ∧
      ParseConfigFile (bytes "SERV_PORT\t8080\n# pools\nSIZE_POOL 2\nSIZE_POOL \t4\n") (zeros 512)
        unsetParameters final ∧
      final.sizePool = 4 ∧ final.servPort = 8080 ∧ final.backlog = 0 := by
  have hfile : fileOf twoSizes =
      bytes "# pools\nSIZE_POOL 2\nSERV_PORT\t8080\nSIZE_POOL \t4\n" := by decide +kernel
  have hother : fileOf portFirst =
      bytes "SERV_PORT\t8080\n# pools\nSIZE_POOL 2\nSIZE_POOL \t4\n" := by decide +kernel
  have hkeys : ∀ key, valuesFor key portFirst = valuesFor key twoSizes := by
    intro key
    cases key <;> rfl
  obtain ⟨final, hread, hvalue, -, hsame⟩ := reads_lastValue twoSizes (zeros 512) unsetParameters
  have hreordered := (hsame portFirst (zeros 512) final hkeys).mpr rfl
  rw [hfile] at hread
  rw [hother] at hreordered
  have hpools : (final.sizePool : ℤ) = 4 := hvalue .sizePool
  exact ⟨final, hread, hreordered, by exact_mod_cast hpools, hvalue .servPort, hvalue .backlog⟩

end ImageApp.Startup
