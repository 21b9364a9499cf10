import ImageApp.Foundations.LineStreams
import ImageApp.Foundations.LoopRuns
import ImageApp.Server.HandleDB
import ImageApp.Server.Senders

/-!
# Reading the configuration

`check_parameter` and `parse_config_file` of `Config.c`. The configuration is a stream that is read
without errors, the global variables that it sets are `Parameters`, and an iteration of the loop
takes one line. The scan for the value in `check_parameter` does not look for the NUL of its line,
and when it runs off the buffer the loop ends there.
-/

set_option autoImplicit false
set_option relaxedAutoImplicit false

namespace ImageApp.Server

open Foundations.CStrings Foundations.LineStreams Foundations.LoopRuns Senders

/-- `enum parameters_conf`. -/
inductive ParametersConf
  | numberThread
  | maxConn
  | portServ
  | backlog
  | sizePool
  | sizeArrfd
  deriving DecidableEq, Repr

/-- The parameter that `check_parameter` finds in a line, or `none` for -1. -/
def parameterOf (line : List Byte) : Option ParametersConf :=
  if (strstr line (bytes "NUM_THREAD_POOL_START")).isSome then some .numberThread
  else if (strstr line (bytes "MAX_CONNECTION_DB")).isSome then some .maxConn
  else if (strstr line (bytes "SIZE_POOL")).isSome then some .sizePool
  else if (strstr line (bytes "SERV_PORT")).isSome then some .portServ
  else if (strstr line (bytes "BACKLOG")).isSome then some .backlog
  else none

/-- The loop of `check_parameter`: the number of bytes in front of the first blank, tab or newline,
or `none` when there is none of them. -/
def scanValue : List Byte → Option ℕ
  | [] => none
  | byte :: rest =>
    if byte ≠ 32 ∧ byte ≠ 9 ∧ byte ≠ 10 then (scanValue rest).map (· + 1) else some 0

/-- `check_parameter`: the parameter and the value of `counter`, or `none` when the buffer is
left. -/
def checkParameter (buf : List Byte) : Option (Option ParametersConf × ℕ) :=
  match (cstring buf).map parameterOf with
  | none => none
  | some none => some (none, 0)
  | some (some parameter) => (scanValue buf).map fun counter ↦ (some parameter, counter)

/-- The global variables of `Config.h`. -/
structure Parameters where
  numThreadPool : ℤ
  maxConnDb : ℤ
  backlog : ℤ
  servPort : ℤ
  sizePool : ℕ
  sizeArrfd : ℤ
  deriving DecidableEq, Repr

/-- The `switch` of `parse_config_file`. -/
def Parameters.assign (parameters : Parameters) (num : ℤ) : Option ParametersConf → Parameters
  | some .numberThread => { parameters with numThreadPool := num }
  | some .maxConn => { parameters with maxConnDb := num }
  | some .portServ => { parameters with servPort := num }
  | some .backlog => { parameters with backlog := num }
  | some .sizePool => { parameters with sizePool := unsignedLong num }
  | some .sizeArrfd => { parameters with sizeArrfd := num }
  | none => parameters

/-- The file, the buffer of 512 bytes, and the global variables. -/
structure ConfigState where
  fp : Stream
  bufLine : List Byte
  parameters : Parameters

/-- How the loop is left: at the end of the file, or outside of the buffer. -/
inductive ConfigEnd
  | endOfFile
  | outOfBounds
  deriving DecidableEq, Repr

/-- The buffer after a line was read into it. -/
def storeLine (bufLine line : List Byte) : List Byte :=
  (overwrite bufLine 0 (line ++ [0])).set 511 0

/-- An iteration of `parse_config_file`. -/
def parseConfigIteration (s : ConfigState) : Progress ConfigState ConfigEnd :=
  if s.fp.eof then .ended s .endOfFile
  else
    match fgets 512 s.fp with
    | (none, fp) => .running { s with fp := fp }
    | (some line, fp) =>
      let bufLine := storeLine s.bufLine line
      match checkParameter bufLine with
      | none => .ended { s with fp := fp, bufLine := bufLine } .outOfBounds
      | some (parameter, counter) =>
        let num := parseInt (untilNul (bufLine.drop counter))
        .running
          { fp := fp, bufLine := zeros 512, parameters := s.parameters.assign num parameter }

/-- `parse_config_file` reads a file from its start and ends with these parameters. -/
def ParseConfigFile (file bufLine : List Byte) (start final : Parameters) : Prop :=
  ∃ n s, after parseConfigIteration ⟨⟨file, false⟩, bufLine, start⟩ n = .ended s .endOfFile ∧
    s.parameters = final

/-! ### An iteration -/

/-- A line and its NUL are at the start of the buffer. -/
theorem exists_storeLine (bufLine line : List Byte) (hline : line.length ≤ 511) :
    ∃ left, storeLine bufLine line = line ++ 0 :: left := by
  rw [storeLine, overwrite, List.take_zero, List.nil_append, List.append_assoc,
    List.singleton_append, List.set_append_right _ _ hline]
  cases h : 511 - line.length with
  | zero => exact ⟨_, rfl⟩
  | succ room => exact ⟨_, rfl⟩

/-- The loop goes on behind a line whose parameter and value are found. -/
theorem parseConfigIteration_of_line {line bufLine buf : List Byte} (hline : newline ∉ line)
    (hlength : line.length < 511) (hstore : storeLine bufLine (line ++ [newline]) = buf)
    {parameter : Option ParametersConf} {counter : ℕ}
    (hcheck : checkParameter buf = some (parameter, counter)) (rest : List Byte)
    (parameters : Parameters) :
    parseConfigIteration ⟨⟨line ++ newline :: rest, false⟩, bufLine, parameters⟩ =
      .running ⟨⟨rest, false⟩, zeros 512,
        parameters.assign (parseInt (untilNul (buf.drop counter))) parameter⟩ := by
  rw [parseConfigIteration, if_neg Bool.false_ne_true, fgets_append hline (by omega)]
  simp only [hstore, hcheck]

/-- Behind the last line the loop finds the end of the file and is left. -/
theorem after_parseConfigIteration_nil {s : ConfigState} (hfp : s.fp = ⟨[], false⟩) :
    after parseConfigIteration s 2 = .ended { s with fp := ⟨[], true⟩ } .endOfFile := by
  have hlast : parseConfigIteration s = .running { s with fp := ⟨[], true⟩ } := by
    rw [parseConfigIteration, hfp, if_neg Bool.false_ne_true, fgets_nil (by decide)]
  rw [after_one_add hlast 1]
  rfl

/-- The loop has one result. -/
theorem ParseConfigFile.unique {file bufLine : List Byte} {start first second : Parameters}
    (hfirst : ParseConfigFile file bufLine start first)
    (hsecond : ParseConfigFile file bufLine start second) : first = second := by
  obtain ⟨n, s, hs, rfl⟩ := hfirst
  obtain ⟨m, t, ht, rfl⟩ := hsecond
  rw [(eq_of_ended hs ht).1]

end ImageApp.Server
