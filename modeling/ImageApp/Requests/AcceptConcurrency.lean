import ImageApp.Foundations.GuardedRuns
import ImageApp.Server.AcceptList

/-!
# Accept lines split at the same time

The workers call `get_list_accept_image` on their own lines, and `strtok` keeps one position for all
of them. A step is one call of `strtok` with what its caller does before the next call. A call that
goes on from the saved position goes on in the string of whoever has saved it, and writes there.
After the end of a worker that ends the program the others go on here, which only adds runs.

`asAlone_step` and `asAlone_step_other` are the two halves of a simulation: under the guard
`OwnPosition` a step of the worker is the step that it makes alone, and a step of another worker
changes nothing that it will see. `asAlone_of_guarded` is the result for runs. `not_endsAsAlone` is
a worker whose list ends early, because another worker has started to split its line.
-/

set_option autoImplicit false
set_option relaxedAutoImplicit false

namespace ImageApp.Requests

open Foundations.CStrings Foundations.GuardedRuns Foundations.Tokens Server

/-! ### The workers and the saved position -/

variable {Worker : Type} [DecidableEq Worker]

/-- A position in a string of a worker. -/
structure Position (Worker : Type) where
  owner : Worker
  string : SplitString
  offset : ℕ
  deriving DecidableEq

/-- The calls of the workers, and the position that `strtok` keeps for the whole program. -/
structure AcceptRun (Worker : Type) where
  parses : Worker → AcceptParse
  saved : Option (Position Worker)

/-- The workers in front of their first calls. -/
def startAccepts (acceptLines : Worker → List Byte) : AcceptRun Worker where
  parses worker := startAcceptParse (acceptLines worker)
  saved := none

/-- Where the next call of a worker starts: a string of its own, or the saved position. -/
def startOf (state : AcceptRun Worker) (worker : Worker) :
    Option SplitString → Option (Position Worker)
  | some string => some ⟨worker, string, 0⟩
  | none => state.saved

/-- A call of `strtok` by a worker that starts at a position, with what the worker does before its
next call. -/
def callAt (arith : Arithmetic) (strtof : List Byte → ℚ × Bool) (state : AcceptRun Worker)
    (worker : Worker) (sep : Byte) (position : Position Worker) : AcceptRun Worker :=
  let owner := state.parses position.owner
  let call := strtok sep (owner.region position.string) position.offset
  let written := Function.update state.parses position.owner
    (owner.setRegion position.string call.region)
  { parses := Function.update written worker <|
      (written worker).resume arith strtof (call.token.map fun offset ↦ (offset, call.region))
    saved := some { position with offset := call.saved } }

/-- A step of a worker: a call of `strtok` and what the worker does before its next call. There is
no step from a saved position that was never set. -/
def acceptListStep (arith : Arithmetic) (strtof : List Byte → ℚ × Bool) (state : AcceptRun Worker)
    (worker : Worker) : Option (AcceptRun Worker) :=
  (state.parses worker).nextCall.bind fun (sep, string) ↦
    (startOf state worker string).map fun position ↦
      callAt arith strtof state worker sep position

/-! ### A worker that is not disturbed -/

/-- A worker that goes on from the saved position finds one in a string of its own. -/
def OwnPosition (state : AcceptRun Worker) (worker : Worker) : Prop :=
  (state.parses worker).nextCall.map Prod.snd = some none →
    state.saved.map Position.owner = some worker

instance decidableOwnPosition (state : AcceptRun Worker) (worker : Worker) :
    Decidable (OwnPosition state worker) :=
  inferInstanceAs (Decidable (_ → _))

/-- The state of the worker when it is alone: its variables, and the position that its latest call
has saved, as long as no other worker has made a call. -/
structure AsAlone (worker : Worker) (state alone : AcceptRun Worker) : Prop where
  parses_eq : alone.parses worker = state.parses worker
  saved_eq : ∀ position, state.saved = some position → position.owner = worker →
    alone.saved = some position

/-- What a call leaves of the worker who makes it, when it starts in a string of its own. -/
theorem parses_callAt_self (arith : Arithmetic) (strtof : List Byte → ℚ × Bool)
    (state : AcceptRun Worker) (sep : Byte) {position : Position Worker} {worker : Worker}
    (howner : position.owner = worker) :
    (callAt arith strtof state worker sep position).parses worker =
      (let call := strtok sep ((state.parses worker).region position.string) position.offset
      ((state.parses worker).setRegion position.string call.region).resume arith strtof
        (call.token.map fun offset ↦ (offset, call.region))) := by
  simp only [callAt, howner, Function.update_self]

/-- The position that such a call saves. -/
theorem saved_callAt (arith : Arithmetic) (strtof : List Byte → ℚ × Bool) (state : AcceptRun Worker)
    (sep : Byte) {position : Position Worker} {worker : Worker} (howner : position.owner = worker) :
    (callAt arith strtof state worker sep position).saved =
      (let call := strtok sep ((state.parses worker).region position.string) position.offset
      some { position with offset := call.saved }) := by
  simp only [callAt, howner]

/-- A call that starts in a string of the worker who makes it leaves the others alone. -/
theorem parses_callAt_of_ne (arith : Arithmetic) (strtof : List Byte → ℚ × Bool)
    (state : AcceptRun Worker) (sep : Byte) {position : Position Worker} {worker other : Worker}
    (howner : position.owner = worker) (hother : other ≠ worker) :
    (callAt arith strtof state worker sep position).parses other = state.parses other := by
  simp only [callAt, howner, Function.update_of_ne hother]

/-- Where a step starts. -/
theorem exists_of_acceptListStep {arith : Arithmetic} {strtof : List Byte → ℚ × Bool}
    {state next : AcceptRun Worker} {worker : Worker}
    (hstep : acceptListStep arith strtof state worker = some next) :
    ∃ sep string position, (state.parses worker).nextCall = some (sep, string) ∧
      startOf state worker string = some position ∧
      next = callAt arith strtof state worker sep position := by
  obtain ⟨⟨sep, string⟩, hcall, hstep⟩ := Option.bind_eq_some_iff.mp hstep
  obtain ⟨position, hposition, hnext⟩ := Option.map_eq_some_iff.mp hstep
  exact ⟨sep, string, position, hcall, hposition, hnext.symm⟩

omit [DecidableEq Worker] in
/-- A worker in front of a call starts in a string of its own. -/
theorem owner_of_startOf {state : AcceptRun Worker} {worker : Worker} {sep : Byte}
    {string : Option SplitString} {position : Position Worker}
    (hown : OwnPosition state worker) (hcall : (state.parses worker).nextCall = some (sep, string))
    (hposition : startOf state worker string = some position) : position.owner = worker := by
  cases string with
  | none =>
    have hsaved : state.saved = some position := hposition
    have howner := hown (by rw [hcall, Option.map_some])
    rwa [hsaved, Option.map_some, Option.some.injEq] at howner
  | some string =>
    rw [startOf, Option.some.injEq] at hposition
    rw [← hposition]

/-- The worker makes its step alone as well. -/
theorem asAlone_step {arith : Arithmetic} {strtof : List Byte → ℚ × Bool}
    {state alone next : AcceptRun Worker} {worker : Worker} (hsame : AsAlone worker state alone)
    (hown : OwnPosition state worker)
    (hstep : acceptListStep arith strtof state worker = some next) :
    ∃ after, acceptListStep arith strtof alone worker = some after ∧ AsAlone worker next after := by
  obtain ⟨sep, string, position, hcall, hposition, rfl⟩ := exists_of_acceptListStep hstep
  have howner := owner_of_startOf hown hcall hposition
  have hstart : startOf alone worker string = some position := by
    cases string with
    | none => exact hsame.saved_eq position hposition howner
    | some string => exact hposition
  refine ⟨callAt arith strtof alone worker sep position, ?_, ?_, fun saved hsaved _ ↦ ?_⟩
  · simp only [acceptListStep, hsame.parses_eq, hcall, Option.bind_some, hstart, Option.map_some]
  · rw [parses_callAt_self arith strtof alone sep howner,
      parses_callAt_self arith strtof state sep howner, hsame.parses_eq]
  · rw [saved_callAt arith strtof state sep howner] at hsaved
    rw [saved_callAt arith strtof alone sep howner, hsame.parses_eq]
    exact hsaved

/-- A step of another worker does not disturb the worker. -/
theorem asAlone_step_other {arith : Arithmetic} {strtof : List Byte → ℚ × Bool}
    {state alone next : AcceptRun Worker} {worker other : Worker} (hother : other ≠ worker)
    (hsame : AsAlone worker state alone) (hown : OwnPosition state other)
    (hstep : acceptListStep arith strtof state other = some next) : AsAlone worker next alone := by
  obtain ⟨sep, string, position, hcall, hposition, rfl⟩ := exists_of_acceptListStep hstep
  have howner := owner_of_startOf hown hcall hposition
  refine ⟨?_, fun saved hsaved hmine ↦ ?_⟩
  · rw [parses_callAt_of_ne arith strtof state sep howner hother.symm, hsame.parses_eq]
  · -- The position that is saved now lies in a string of the other worker.
    rw [callAt, Option.some.injEq] at hsaved
    rw [← hsaved] at hmine
    exact absurd (howner.symm.trans hmine) hother

/-- When every call that goes on from the saved position is made by the worker who has saved it, all
workers come to the states that they come to alone. -/
theorem asAlone_of_guarded {arith : Arithmetic} {strtof : List Byte → ℚ × Bool}
    {acceptLines : Worker → List Byte} {actions : List Worker} {final : AcceptRun Worker}
    (hguarded : Guarded (acceptListStep arith strtof) OwnPosition (startAccepts acceptLines)
      actions)
    (hrun : run (acceptListStep arith strtof) (startAccepts acceptLines) actions = some final)
    (worker : Worker) :
    ∃ alone, run (acceptListStep arith strtof) (startAccepts acceptLines)
      (List.replicate (actions.count worker) worker) = some alone ∧
      final.parses worker = alone.parses worker := by
  have hstart : AsAlone worker (startAccepts acceptLines) (startAccepts acceptLines) :=
    ⟨rfl, fun _ hsaved _ ↦ hsaved⟩
  obtain ⟨alone, halone, hsame⟩ := exists_alone_of_guarded
    (fun _ _ _ hsame hown hstep ↦ asAlone_step hsame hown hstep)
    (fun _ _ _ _ hother hsame hown hstep ↦ asAlone_step_other hother hsame hown hstep)
    hstart hguarded hrun
  exact ⟨alone, halone, hsame.parses_eq.symm⟩

/-! ### The function on its own -/

/-- The worker is where the function is that nobody disturbs. -/
structure OnItsOwn (worker : Worker) (state : AcceptRun Worker) (s : AcceptCall) : Prop where
  parse_eq : state.parses worker = s.parse
  saved_eq : s.parse.place = .line ∨ state.saved = some ⟨worker, s.saved.1, s.saved.2⟩

/-- A step of the worker is a call of the function. -/
theorem onItsOwn_step {arith : Arithmetic} {strtof : List Byte → ℚ × Bool}
    {state next : AcceptRun Worker} {worker : Worker} {s : AcceptCall}
    (hown : OnItsOwn worker state s)
    (hstep : acceptListStep arith strtof state worker = some next) :
    OnItsOwn worker next (acceptCall arith strtof s) := by
  obtain ⟨sep, string, position, hcall, hposition, rfl⟩ := exists_of_acceptListStep hstep
  rw [hown.parse_eq] at hcall
  have hplace : position = ⟨worker, ((string.map fun string ↦ (string, 0)).getD s.saved).1,
      ((string.map fun string ↦ (string, 0)).getD s.saved).2⟩ := by
    cases string with
    | none =>
      have hline : s.parse.place ≠ .line := by
        intro hline
        rw [AcceptParse.nextCall, hline] at hcall
        cases hcall
      have hsaved := hown.saved_eq.resolve_left hline
      rw [startOf, hsaved, Option.some.injEq] at hposition
      exact hposition.symm
    | some string =>
      rw [startOf, Option.some.injEq] at hposition
      exact hposition.symm
  have howner : position.owner = worker := by rw [hplace]
  refine ⟨?_, Or.inr ?_⟩
  · rw [parses_callAt_self arith strtof state sep howner, hown.parse_eq, acceptCall, hcall, hplace]
  · rw [saved_callAt arith strtof state sep howner, hown.parse_eq, acceptCall, hcall, hplace]

/-- A worker that is alone runs the function. -/
theorem parses_of_replicate {arith : Arithmetic} {strtof : List Byte → ℚ × Bool}
    {acceptLines : Worker → List Byte} {worker : Worker} {calls : ℕ} {alone : AcceptRun Worker}
    (hrun : run (acceptListStep arith strtof) (startAccepts acceptLines)
      (List.replicate calls worker) = some alone) :
    OnItsOwn worker alone (getListAcceptImage arith strtof (acceptLines worker) calls) := by
  induction calls generalizing alone with
  | zero =>
    cases hrun
    exact ⟨rfl, Or.inl rfl⟩
  | succ calls ih =>
    rw [List.replicate_succ', run_append] at hrun
    obtain ⟨before, hbefore, hlast⟩ := Option.bind_eq_some_iff.mp hrun
    obtain ⟨next, hnext, hend⟩ := Option.bind_eq_some_iff.mp hlast
    cases hend
    rw [getListAcceptImage, Function.iterate_succ_apply']
    exact onItsOwn_step (ih hbefore) hnext

/-- When every call that goes on from the saved position is made by the worker who has saved it,
each worker is where the function is after as many calls. -/
theorem parses_of_guarded {arith : Arithmetic} {strtof : List Byte → ℚ × Bool}
    {acceptLines : Worker → List Byte} {actions : List Worker} {final : AcceptRun Worker}
    (hguarded : Guarded (acceptListStep arith strtof) OwnPosition (startAccepts acceptLines)
      actions)
    (hrun : run (acceptListStep arith strtof) (startAccepts acceptLines) actions = some final)
    (worker : Worker) :
    final.parses worker =
      (getListAcceptImage arith strtof (acceptLines worker) (actions.count worker)).parse := by
  have hstart : AsAlone worker (startAccepts acceptLines) (startAccepts acceptLines) :=
    ⟨rfl, fun _ hsaved _ ↦ hsaved⟩
  obtain ⟨alone, halone, hsame⟩ := exists_alone_of_guarded
    (fun _ _ _ hsame hown hstep ↦ asAlone_step hsame hown hstep)
    (fun _ _ _ _ hother hsame hown hstep ↦ asAlone_step_other hother hsame hown hstep)
    hstart hguarded hrun
  rw [← hsame.parses_eq, (parses_of_replicate halone).parse_eq]

/-- What `strtof` returns for a text that is not a number. -/
def noNumber (_ : List Byte) : ℚ × Bool :=
  (0, false)

/-- The lines of two workers. -/
def twoAcceptLines : Bool → List Byte
  | false => bytes "image/png,image/webp"
  | true => bytes "image/jxr"

/-- Two workers that start to split another string only when the other one is done with its own. -/
def politeTurns : List Bool :=
  [false, false, false, true, true, false, false, true, true, false, false]

theorem asAlone_politeTurns :
    ∃ final, run (acceptListStep ieee noNumber) (startAccepts twoAcceptLines) politeTurns =
      some final ∧ ∀ worker, ∃ alone,
        run (acceptListStep ieee noNumber) (startAccepts twoAcceptLines)
          (List.replicate (politeTurns.count worker) worker) = some alone ∧
        final.parses worker = alone.parses worker := by
  obtain ⟨final, hrun⟩ := Option.isSome_iff_exists.mp
    (show (run (acceptListStep ieee noNumber) (startAccepts twoAcceptLines) politeTurns).isSome =
      true by decide +kernel)
  exact ⟨final, hrun, asAlone_of_guarded (by decide +kernel) hrun⟩

/-- A worker that has ended is in a state to which it also comes alone. -/
def EndsAsAlone (arith : Arithmetic) (strtof : List Byte → ℚ × Bool)
    (acceptLines : Worker → List Byte) (final : AcceptRun Worker) (worker : Worker) : Prop :=
  ∀ outcome, (final.parses worker).place = .ended outcome →
    ∃ count alone, run (acceptListStep arith strtof) (startAccepts acceptLines)
      (List.replicate count worker) = some alone ∧ final.parses worker = alone.parses worker

/-- The second worker starts to split its line between the first two calls of the first one. -/
def rudeTurns : List Bool :=
  [false, true, false, false, false]

/-- The place of the first worker, and the length of its list. -/
def firstList (state : AcceptRun Bool) : AcceptPlace × ℕ :=
  ((state.parses false).place, (state.parses false).bufImList.length)

/-- The first worker alone ends after seven calls, and not with one entry. -/
theorem firstList_alone {count : ℕ} {alone : AcceptRun Bool}
    (hrun : run (acceptListStep ieee noNumber) (startAccepts twoAcceptLines)
      (List.replicate count false) = some alone) : firstList alone ≠ (.ended .parsed, 1) := by
  by_cases hcount : count < 8
  · have hshort : ∀ count < 8, (run (acceptListStep ieee noNumber) (startAccepts twoAcceptLines)
        (List.replicate count false)).map firstList ≠ some (.ended .parsed, 1) := by
      decide +kernel
    intro hlist
    exact hshort count hcount (by rw [hrun, Option.map_some, hlist])
  · obtain ⟨more, rfl⟩ := Nat.exists_eq_add_of_le (Nat.le_of_not_lt hcount)
    have hended : (run (acceptListStep ieee noNumber) (startAccepts twoAcceptLines)
        (List.replicate 8 false)).isNone = true := by decide +kernel
    rw [List.replicate_add, run_append, Option.isNone_iff_eq_none.mp hended] at hrun
    simp at hrun

/-- The first worker finds the end of the line of the other one, and its list has one entry. -/
theorem not_endsAsAlone :
    ¬ ∀ (arith : Arithmetic) (strtof : List Byte → ℚ × Bool) (acceptLines : Bool → List Byte)
      (actions : List Bool) (final : AcceptRun Bool),
      run (acceptListStep arith strtof) (startAccepts acceptLines) actions = some final →
        ∀ worker, EndsAsAlone arith strtof acceptLines final worker := by
  intro hends
  obtain ⟨final, hrun, hlist⟩ := Option.map_eq_some_iff.mp
    (show (run (acceptListStep ieee noNumber) (startAccepts twoAcceptLines) rudeTurns).map
      firstList = some (.ended .parsed, 1) by decide +kernel)
  obtain ⟨count, alone, halone, hsame⟩ := hends ieee noNumber twoAcceptLines rudeTurns final hrun
    false .parsed (congrArg Prod.fst hlist)
  refine firstList_alone halone ?_
  rw [firstList, ← hsame]
  exact hlist

end ImageApp.Requests
