import ImageApp.Server.Locking
import Mathlib.Data.Set.Subsingleton

/-!
# No deadlock among the mutexes

The threads of the server share eight kinds of mutexes, and `handle_pool` even waits under one of
them. Still no thread ever waits for a mutex whose owner is blocked: `goesOn_of_run` is about every
interleaving of `main`, the dispatchers, the workers and `handle_pool`, for any number of threads in
a pool. So whatever keeps the server waiting are its condition variables.

`writesAlone_of_run` says what the mutexes protect: `max_descriptor`, the cache of queries and the
cache of images are never written by two threads at a time, and only by the owner of their mutex.
-/

set_option autoImplicit false
set_option relaxedAutoImplicit false

namespace ImageApp.Pools

open Foundations.GuardedRuns Foundations.LockPrograms Server

variable {numThreadPool : ℕ}
  {system : ThreadSystem (ServerThread numThreadPool) (ServerMutex numThreadPool)
    (ServerCond numThreadPool) ServerVar}
  {actions : List (ThreadAction (ServerThread numThreadPool))}

/-- The thread can go on, waits on a condition variable, or wants a mutex whose owner is another
thread that can go on. -/
def GoesOn
    (system : ThreadSystem (ServerThread numThreadPool) (ServerMutex numThreadPool)
      (ServerCond numThreadPool) ServerVar)
    (thread : ServerThread numThreadPool) : Prop :=
  Enabled system thread ∨ (∃ cond, WaitsOn cond (system.thread thread)) ∨
    ∃ mutex rest owner, system.thread thread = .running (.lock mutex :: rest) ∧
      system.owner mutex = some owner ∧ owner ≠ thread ∧ Enabled system owner

/-- The threads that are about to write a variable. -/
def writers
    (system : ThreadSystem (ServerThread numThreadPool) (ServerMutex numThreadPool)
      (ServerCond numThreadPool) ServerVar)
    (var : ServerVar) : Set (ServerThread numThreadPool) :=
  {thread | ∃ rest, system.thread thread = .running (.write var :: rest)}

/-- In every interleaving, a thread that waits for a mutex waits for a thread that can go on. -/
theorem goesOn_of_run (hrun : run step (startSystem serverProgram) actions = some system)
    (thread : ServerThread numThreadPool) : GoesOn system thread := by
  obtain ⟨held, hdisciplined⟩ := disciplined_of_run balanced_serverProgram hrun
  rcases blocked_cases hdisciplined thread with henabled | hended | hwaits | hwants
  · exact Or.inl henabled
  · -- The loops of the threads have no end.
    have hendless := endless_of_run exists_serverProgram_eq_forever hrun thread
    rw [hended] at hendless
    obtain ⟨body, hbody⟩ := hendless
    exact absurd hbody List.not_mem_nil
  · exact Or.inr (Or.inl hwaits)
  · exact Or.inr (Or.inr hwants)

/-- A worker whose client has gone. -/
def leavingWorker : ServerThread 5 :=
  .worker 0 0

/-- The steps of `main` up to the increment of `max_descriptor`, and those of the worker
that is leaving, up to the mutex. -/
def closingSteps : List (ThreadAction (ServerThread 5)) :=
  [.advance .main true, .advance .main false] ++ List.replicate 4 (.advance .main true) ++
    List.replicate 11 (.advance leavingWorker true) ++
    List.replicate 2 (.advance leavingWorker false) ++
    List.replicate 2 (.advance leavingWorker true)

/-- The worker waits for `main`. -/
theorem goesOn_closing :
    ∃ system : ThreadSystem (ServerThread 5) (ServerMutex 5) (ServerCond 5) ServerVar,
      run step (startSystem serverProgram) closingSteps = some system ∧
        system.owner .mtxMaxD = some .main ∧ GoesOn system leavingWorker := by
  have howner : (run step (startSystem serverProgram) closingSteps).map
      (fun system ↦ system.owner .mtxMaxD) = some (some .main) := by
    decide +kernel
  obtain ⟨system, hrun, hmain⟩ := Option.map_eq_some_iff.mp howner
  exact ⟨system, hrun, hmain, goesOn_of_run hrun _⟩

/-- In every interleaving, no two threads write a variable at the same time, and a thread that
writes it is the owner of its mutex. -/
theorem writesAlone_of_run (hrun : run step (startSystem serverProgram) actions = some system)
    (var : ServerVar) :
    (writers system var).Subsingleton ∧
      ∀ thread ∈ writers system var, system.owner (mutexOf numThreadPool var) = some thread := by
  obtain ⟨held, hdisciplined⟩ := disciplined_of_run balanced_serverProgram hrun
  constructor
  · rintro thread ⟨rest, hthread⟩ other ⟨rest', hother⟩
    exact eq_of_writing hdisciplined hthread hother
  · rintro thread ⟨rest, hthread⟩
    exact owner_of_writing hdisciplined hthread

/-- `main` is about to write `max_descriptor`, and owns its mutex. -/
theorem writesAlone_closing :
    ∃ system : ThreadSystem (ServerThread 5) (ServerMutex 5) (ServerCond 5) ServerVar,
      run step (startSystem serverProgram) closingSteps = some system ∧
        .main ∈ writers system .maxDescriptor ∧ (writers system .maxDescriptor).Subsingleton ∧
          ∀ thread ∈ writers system .maxDescriptor, system.owner .mtxMaxD = some thread := by
  have hwriting : (run step (startSystem serverProgram) closingSteps).map
      (fun system ↦ writing (system.thread .main)) = some (some .maxDescriptor) := by
    decide +kernel
  obtain ⟨system, hrun, hmain⟩ := Option.map_eq_some_iff.mp hwriting
  exact ⟨system, hrun, exists_of_writing hmain, writesAlone_of_run hrun _⟩

end ImageApp.Pools
