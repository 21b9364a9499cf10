import ImageApp.Foundations.LockedUpdates
import ImageApp.Pools.LockDiscipline
import Mathlib.Data.BitVec
import Mathlib.Tactic.Abel

/-!
# The count of connections

`max_descriptor` is an `nfds_t`, an unsigned number of 64 bits. It starts at 1, `main` adds one for
each connection that it accepts, and the workers take one away when they close a connection. Each of
these updates loads the variable and stores it again, and the threads may take steps in between. All
of them are made under `mtx_max_d`, and `maxDescriptor_of_run` says that none is lost: in every
interleaving, the variable is what the updates make of it.
-/

set_option autoImplicit false
set_option relaxedAutoImplicit false

namespace ImageApp.Pools

open Foundations.GuardedRuns Foundations.LockPrograms Server

variable {numThreadPool : ℕ}

/-- What a thread makes of the value that it has loaded. The caches are not numbers, and are left
out. -/
def descriptorUpdate : ServerThread numThreadPool → ServerVar → BitVec 64 → BitVec 64
  | .main, .maxDescriptor, value => value + 1
  | .worker .., .maxDescriptor, value => value - 1
  | _, _, value => value

/-- The values at the start of `main`. -/
def initialValue : ServerVar → BitVec 64
  | .maxDescriptor => 1
  | .cache | .fdImageCache => 0

/-- The update counts a connection in. -/
def countsIn : ServerThread numThreadPool × ServerVar → Bool
  | (.main, .maxDescriptor) => true
  | _ => false

/-- The update counts a connection out. -/
def countsOut : ServerThread numThreadPool × ServerVar → Bool
  | (.worker .., .maxDescriptor) => true
  | _ => false

/-- The updates, one after the other, count up and down. -/
theorem valueAfter_descriptorUpdate (made : List (ServerThread numThreadPool × ServerVar)) :
    valueAfter descriptorUpdate initialValue made .maxDescriptor =
      1 + BitVec.ofNat 64 (made.countP countsIn) - BitVec.ofNat 64 (made.countP countsOut) := by
  have hsucc : ∀ count, BitVec.ofNat 64 (count + 1) = BitVec.ofNat 64 count + 1 := fun count ↦
    BitVec.ofNat_add count 1
  induction made using List.reverseRecOn with
  | nil => simp [valueAfter, initialValue]
  | append_singleton made done ih =>
    obtain ⟨thread, var⟩ := done
    rw [valueAfter_concat, ih, List.countP_append, List.countP_append, List.countP_singleton,
      List.countP_singleton]
    cases var with
    | cache | fdImageCache => cases thread <;> simp [countsIn, countsOut]
    | maxDescriptor =>
      cases thread with
      | main =>
        simp only [countsIn, countsOut, descriptorUpdate, if_true, Bool.false_eq_true, if_false,
          Nat.add_zero, hsucc]
        abel
      | worker idxPool e =>
        simp only [countsIn, countsOut, descriptorUpdate, if_true, Bool.false_eq_true, if_false,
          Nat.add_zero, hsucc]
        abel
      | dispatcher | poolHandler => simp [countsIn, countsOut, descriptorUpdate]

/-- In every interleaving of the threads of the server, `max_descriptor` is one more than the
connections that were accepted, less those that were closed, as far as the updates were stored and
modulo two to the 64th. -/
theorem maxDescriptor_of_run {actions : List (UpdateAction (ServerThread numThreadPool))}
    {system : UpdateSystem (ServerThread numThreadPool) (ServerMutex numThreadPool)
      (ServerCond numThreadPool) ServerVar (BitVec 64)}
    (hrun : run (updateStep descriptorUpdate) (startUpdates serverProgram initialValue) actions =
      some system) :
    system.value .maxDescriptor = 1 + BitVec.ofNat 64 (system.made.countP countsIn) -
      BitVec.ofNat 64 (system.made.countP countsOut) := by
  rw [value_of_run balanced_serverProgram hrun, valueAfter_descriptorUpdate]

/-- A worker wants to count its client out while `main` is counting another one in. -/
def countingSteps : List (UpdateAction (ServerThread 5)) :=
  closingSteps.map .take ++
    [.load .main, .take (.advance .main true), .take (.advance .main true),
      .take (.advance .main true), .take (.advance leavingWorker true),
      .take (.advance leavingWorker true), .load leavingWorker,
      .take (.advance leavingWorker true)]

theorem maxDescriptor_counting :
    ∃ system : UpdateSystem (ServerThread 5) (ServerMutex 5) (ServerCond 5) ServerVar (BitVec 64),
      run (updateStep descriptorUpdate) (startUpdates serverProgram initialValue) countingSteps =
          some system ∧
        system.made = [(.main, .maxDescriptor), (leavingWorker, .maxDescriptor)] ∧
        system.value .maxDescriptor = 1 + BitVec.ofNat 64 (system.made.countP countsIn) -
          BitVec.ofNat 64 (system.made.countP countsOut) := by
  have hmade : (run (updateStep descriptorUpdate) (startUpdates serverProgram initialValue)
      countingSteps).map (fun system ↦ system.made) =
        some [(.main, .maxDescriptor), (leavingWorker, .maxDescriptor)] := by
    decide +kernel
  obtain ⟨system, hrun, hmade⟩ := Option.map_eq_some_iff.mp hmade
  exact ⟨system, hrun, hmade, maxDescriptor_of_run hrun⟩

end ImageApp.Pools
