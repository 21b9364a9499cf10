import ImageApp.Foundations.LockPrograms
import Mathlib.Data.Fintype.Sigma
import Mathlib.Data.Fintype.Sum
import Mathlib.Tactic.DeriveFintype

/-!
# The mutexes of the server

What the threads of the server do to mutexes and condition variables: `main`, the dispatchers of
`dispatch_job`, the workers of `handle_client`, and `handle_pool`. The tests of the source are
choices, so the programs run in every way in which the threads of the source do. Reading, writing,
polling and the calls of the database and of MagickWand take no mutex. A function that ends the
program is left out.

There are places for 32 pools and their dispatchers, and a pool has `numThreadPool` workers. The
variables are those that are written under one mutex at all places: `max_descriptor`, the cache of
queries with its counter, and the cache of images with its two positions.
-/

set_option autoImplicit false
set_option relaxedAutoImplicit false

namespace ImageApp.Server

open Foundations.LockPrograms Foundations.LockPrograms.LockProgram

/-! ### Threads, mutexes, condition variables -/

/-- The threads of the server. -/
inductive ServerThread (numThreadPool : ℕ)
  | main
  | dispatcher (idxPool : Fin 32)
  | worker (idxPool : Fin 32) (e : Fin numThreadPool)
  | poolHandler
  deriving DecidableEq, Fintype

/-- The mutexes of the server. -/
inductive ServerMutex (numThreadPool : ℕ)
  | mtxMaxD
  | mtxRealloc
  | mtxReallocEnd
  | dbMtxCache
  | fdCacheMtx
  | mtxDispatch (idxPool : Fin 32)
  | mtx (idxPool : Fin 32)
  | mtxNewRequest (idxPool : Fin 32) (e : Fin numThreadPool)
  deriving DecidableEq

/-- The condition variables of the server. -/
inductive ServerCond (numThreadPool : ℕ)
  | condRealloc
  | condReallocEnd
  | condDispatch (idxPool : Fin 32)
  | cbNotFull (idxPool : Fin 32)
  | condMsg (idxPool : Fin 32) (e : Fin numThreadPool)
  deriving DecidableEq

/-- The shared variables that are written under a mutex. -/
inductive ServerVar
  | maxDescriptor
  | cache
  | fdImageCache
  deriving DecidableEq, Repr

variable (numThreadPool : ℕ)

/-- The mutex of a shared variable. -/
def mutexOf : ServerVar → ServerMutex numThreadPool
  | .maxDescriptor => .mtxMaxD
  | .cache => .dbMtxCache
  | .fdImageCache => .fdCacheMtx

/-- The programs of the threads of the server. -/
abbrev ServerProgram :=
  LockProgram (ServerMutex numThreadPool) (ServerCond numThreadPool) ServerVar

variable {numThreadPool}

/-! ### Accepting and dispatching -/

/-- The end of the loop of `main`: when there are many connections, `handle_pool` is asked for more
pools. -/
def requestPools : ServerProgram numThreadPool :=
  block
    [.signal .condRealloc,
      critical .mtxReallocEnd (.wait .condReallocEnd .mtxReallocEnd)]

/-- The signal to a dispatcher. -/
def signalDispatcher (idxPool : Fin 32) : ServerProgram numThreadPool :=
  critical (.mtxDispatch idxPool) (.signal (.condDispatch idxPool))

/-- The loop of `main`, which begins again when no connection is ready. -/
def mainLoop : ServerProgram numThreadPool :=
  .forever <| .choice .skip <| block
    [critical .mtxMaxD (.write .maxDescriptor),
      oneOf ((List.finRange 32).map signalDispatcher),
      .choice .skip requestPools]

/-- `get_E`, which waits as long as it finds no free slot. -/
def getEProgram (idxPool : Fin 32) : ServerProgram numThreadPool :=
  .loop (critical (.mtx idxPool) (.wait (.cbNotFull idxPool) (.mtx idxPool)))

/-- The signal to a worker. -/
def signalWorker (idxPool : Fin 32) (nE : Fin numThreadPool) : ServerProgram numThreadPool :=
  critical (.mtxNewRequest idxPool nE) (.signal (.condMsg idxPool nE))

/-- `dispatch_job`. -/
def dispatchJob (idxPool : Fin 32) : ServerProgram numThreadPool :=
  .forever <| block
    [critical (.mtxDispatch idxPool) (.wait (.condDispatch idxPool) (.mtxDispatch idxPool)),
      getEProgram idxPool,
      oneOf ((List.finRange numThreadPool).map (signalWorker idxPool))]

/-- `handle_pool`; `allocate_pool` takes no mutex. -/
def handlePool : ServerProgram numThreadPool :=
  .forever <| critical .mtxRealloc <| block
    [.wait .condRealloc .mtxRealloc, .loop .skip, .signal .condReallocEnd]

/-! ### Serving -/

/-- `wait_for_connection`. -/
def waitForConnection (idxPool : Fin 32) (e : Fin numThreadPool) : ServerProgram numThreadPool :=
  critical (.mtxNewRequest idxPool e)
    (.choice .skip (.wait (.condMsg idxPool e) (.mtxNewRequest idxPool e)))

/-- `retrieve_dim_from_DB`: the search, and the insertion after a miss. -/
def retrieveProgram : ServerProgram numThreadPool :=
  block [critical .dbMtxCache .skip, .choice .skip (critical .dbMtxCache (.write .cache))]

/-- `get_image_to_send`: nothing for a cached image, and no insertion for a missing one. -/
def imageProgram : ServerProgram numThreadPool :=
  .choice .skip <| block
    [critical .fdCacheMtx .skip, .choice .skip (critical .fdCacheMtx (.write .fdImageCache))]

/-- `close_client_with_status`. -/
def closeProgram (idxPool : Fin 32) : ServerProgram numThreadPool :=
  block
    [critical .mtxMaxD (.write .maxDescriptor),
      .choice .skip (critical (.mtx idxPool) (.signal (.cbNotFull idxPool)))]

/-- The answer for an image that is not present. -/
def notPresentProgram (idxPool : Fin 32) : ServerProgram numThreadPool :=
  block
    [critical .mtxMaxD (.write .maxDescriptor),
      critical (.mtx idxPool) (.signal (.cbNotFull idxPool))]

/-- `handle_timer`: the last of its rounds returns. -/
def timerProgram : ServerProgram numThreadPool :=
  block [.loop (critical .mtxRealloc .skip), critical .mtxRealloc .skip]

/-- The loop of `handle_client`: a request is answered and the timer awaited, or the client has gone
while the image was sent, or before. -/
def handleClientProgram (idxPool : Fin 32) (e : Fin numThreadPool) : ServerProgram numThreadPool :=
  .forever <| block
    [waitForConnection idxPool e,
      oneOf
        [block
            [.choice .skip
                (block [retrieveProgram, imageProgram, .choice .skip (notPresentProgram idxPool)]),
              timerProgram,
              .choice .skip (closeProgram idxPool)],
          block [retrieveProgram, imageProgram, closeProgram idxPool],
          closeProgram idxPool]]

/-- The programs of the threads. -/
def serverProgram : ServerThread numThreadPool → ServerProgram numThreadPool
  | .main => mainLoop
  | .dispatcher idxPool => dispatchJob idxPool
  | .worker idxPool e => handleClientProgram idxPool e
  | .poolHandler => handlePool

/-! ### The programs pass the check -/

theorem balanced_mainLoop : Balanced (mutexOf numThreadPool) mainLoop := by
  apply balanced_forever
  apply balanced_choice balanced_skip
  apply balanced_block_cons (balanced_critical_write rfl)
  apply balanced_block_cons
  · apply balanced_oneOf
    intro p hp
    obtain ⟨idxPool, -, rfl⟩ := List.mem_map.mp hp
    exact balanced_critical_signal _ _
  · apply balanced_block_cons _ balanced_block_nil
    apply balanced_choice balanced_skip
    apply balanced_block_cons (balanced_signal _)
    exact balanced_block_cons (balanced_critical_wait _ _) balanced_block_nil

theorem balanced_dispatchJob (idxPool : Fin 32) :
    Balanced (mutexOf numThreadPool) (dispatchJob idxPool) := by
  apply balanced_forever
  apply balanced_block_cons (balanced_critical_wait _ _)
  apply balanced_block_cons (balanced_loop (balanced_critical_wait _ _))
  apply balanced_block_cons _ balanced_block_nil
  apply balanced_oneOf
  intro p hp
  obtain ⟨nE, -, rfl⟩ := List.mem_map.mp hp
  exact balanced_critical_signal _ _

theorem balanced_handlePool : Balanced (mutexOf numThreadPool) handlePool := by
  apply balanced_forever
  apply balanced_critical
  simp [block, heldAfter]

theorem balanced_closeProgram (idxPool : Fin 32) :
    Balanced (mutexOf numThreadPool) (closeProgram idxPool) := by
  apply balanced_block_cons (balanced_critical_write rfl)
  apply balanced_block_cons _ balanced_block_nil
  exact balanced_choice balanced_skip (balanced_critical_signal _ _)

theorem balanced_retrieveProgram : Balanced (mutexOf numThreadPool) retrieveProgram := by
  apply balanced_block_cons (balanced_critical rfl)
  apply balanced_block_cons _ balanced_block_nil
  exact balanced_choice balanced_skip (balanced_critical_write rfl)

theorem balanced_imageProgram : Balanced (mutexOf numThreadPool) imageProgram := by
  apply balanced_choice balanced_skip
  apply balanced_block_cons (balanced_critical rfl)
  apply balanced_block_cons _ balanced_block_nil
  exact balanced_choice balanced_skip (balanced_critical_write rfl)

theorem balanced_notPresentProgram (idxPool : Fin 32) :
    Balanced (mutexOf numThreadPool) (notPresentProgram idxPool) := by
  apply balanced_block_cons (balanced_critical_write rfl)
  exact balanced_block_cons (balanced_critical_signal _ _) balanced_block_nil

theorem balanced_timerProgram : Balanced (mutexOf numThreadPool) timerProgram := by
  apply balanced_block_cons (balanced_loop (balanced_critical rfl))
  exact balanced_block_cons (balanced_critical rfl) balanced_block_nil

theorem balanced_handleClientProgram (idxPool : Fin 32) (e : Fin numThreadPool) :
    Balanced (mutexOf numThreadPool) (handleClientProgram idxPool e) := by
  have hclose := @balanced_closeProgram numThreadPool idxPool
  apply balanced_forever
  apply balanced_block_cons
  · apply balanced_critical
    simp [heldAfter]
  apply balanced_block_cons _ balanced_block_nil
  apply balanced_oneOf
  simp only [List.forall_mem_cons, List.not_mem_nil, false_implies, implies_true, and_true]
  refine ⟨?_, ?_, hclose⟩
  · apply balanced_block_cons
    · apply balanced_choice balanced_skip
      apply balanced_block_cons balanced_retrieveProgram
      apply balanced_block_cons balanced_imageProgram
      apply balanced_block_cons _ balanced_block_nil
      exact balanced_choice balanced_skip (balanced_notPresentProgram idxPool)
    · apply balanced_block_cons balanced_timerProgram
      exact balanced_block_cons (balanced_choice balanced_skip hclose) balanced_block_nil
  · apply balanced_block_cons balanced_retrieveProgram
    apply balanced_block_cons balanced_imageProgram
    exact balanced_block_cons hclose balanced_block_nil

/-- Every thread takes one mutex at a time and gives it back, waits and writes under the right one.
-/
theorem balanced_serverProgram (thread : ServerThread numThreadPool) :
    Balanced (mutexOf numThreadPool) (serverProgram thread) := by
  cases thread with
  | main => exact balanced_mainLoop
  | dispatcher idxPool => exact balanced_dispatchJob idxPool
  | worker idxPool e => exact balanced_handleClientProgram idxPool e
  | poolHandler => exact balanced_handlePool

/-- No thread of the server ends. -/
theorem exists_serverProgram_eq_forever (thread : ServerThread numThreadPool) :
    ∃ body, serverProgram thread = .forever body := by
  cases thread with
  | main | dispatcher idxPool | worker idxPool e | poolHandler => exact ⟨_, rfl⟩

end ImageApp.Server
