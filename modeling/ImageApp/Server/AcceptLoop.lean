import Mathlib.Algebra.GroupWithZero.Nat
import Mathlib.Algebra.Ring.Int.Defs
import Mathlib.Data.Int.Notation
import Mathlib.Tactic.Common

/-!
# Accepting connections

The part of `main` that chooses the pool for a connection, with `handle_pool`, which doubles the
number of pools, and the set-up of the pools by `init_server`. A step of the loop is an accepted
connection, and the load is the value of `max_descriptor` when the loop reads it. A growth that the
loop requests is carried out before the loop goes on.

The tables hold the indices for which a pool was allocated, an entry of the dispatcher initialised
and a thread `dispatch_job` started, in the order of the calls. The number of threads of a pool is
`numThreadPool`. An index that has no entry in the table of 32 is not defined behaviour, and neither
is a sum that is not an `int`, or a division by zero.
-/

set_option autoImplicit false
set_option relaxedAutoImplicit false

namespace ImageApp.Server

/-- The number of entries of `pool` and `dispatcher`. -/
def tableSize : ℕ := 32

/-- The indices that were set up, and the number of pools. -/
structure PoolTables where
  allocated : List ℕ
  initialised : List ℕ
  jobs : List ℕ
  sizePool : ℕ
  deriving DecidableEq

/-- The two loops of `init_server` over the pools. -/
def initPools (sizePool : ℕ) : PoolTables where
  allocated := List.range sizePool
  initialised := List.range sizePool
  jobs := List.range sizePool
  sizePool := sizePool

/-- The indices that a round of `handle_pool` sets up. -/
def grownIndices (sizePool : ℕ) : List ℕ :=
  (List.range sizePool).map fun pp ↦ sizePool + pp

/-- A round of `handle_pool`, behind its wait. -/
def growPools (tables : PoolTables) : PoolTables where
  allocated := tables.allocated ++ grownIndices tables.sizePool
  initialised := tables.initialised ++ grownIndices tables.sizePool
  jobs := tables.jobs ++ grownIndices tables.sizePool
  sizePool := (tables.sizePool + tables.sizePool) % 2 ^ 64

/-- The accept loop: the tables, and the local variables `s` and `idx_pool`. -/
structure AcceptLoop where
  tables : PoolTables
  s : ℕ
  idxPool : ℕ
  deriving DecidableEq

/-- The accept loop behind `init_server`. -/
def initServer (sizePool : ℕ) : AcceptLoop where
  tables := initPools sizePool
  s := sizePool
  idxPool := 0

/-- `(idx_pool + 1) % s`, stored into an `int`. -/
def nextIndex (idxPool : ℤ) (s : ℕ) : Option ℕ :=
  if s ≠ 0 ∧ idxPool + 1 < 2 ^ 31 ∧ ((idxPool + 1) % 2 ^ 64).toNat % s < 2 ^ 31 then
    some (((idxPool + 1) % 2 ^ 64).toNat % s)
  else none

/-- `num_thread_pool * s`, a `size_t`. -/
def numThreads (numThreadPool s : ℕ) : ℕ :=
  numThreadPool * s % 2 ^ 64

/-- The test of the load. -/
def Overloaded (numThreadPool s maxDescriptor : ℕ) : Prop :=
  numThreads numThreadPool s / 2 ≤ maxDescriptor

instance decidableOverloaded (numThreadPool s maxDescriptor : ℕ) :
    Decidable (Overloaded numThreadPool s maxDescriptor) :=
  inferInstanceAs (Decidable (_ ≤ _))

/-- The index that is stored under load, `(int) (num_thread_pool * s)`. -/
def loadIndex (numThreadPool s : ℕ) : ℤ :=
  Int.bmod (numThreads numThreadPool s) (2 ^ 32)

/-- The growth that the loop requests. -/
def growUnderLoad (state : AcceptLoop) : PoolTables :=
  if (state.s + state.s) % 2 ^ 64 < 32 then growPools state.tables else state.tables

/-- A connection is accepted for the pool `idxPool`, and the loop goes on to the next index. -/
def acceptStep (numThreadPool : ℕ) (state : AcceptLoop) (maxDescriptor : ℕ) : Option AcceptLoop :=
  if state.idxPool < tableSize then
    if Overloaded numThreadPool state.s maxDescriptor then
      (nextIndex (loadIndex numThreadPool state.s) (growUnderLoad state).sizePool).map fun idxPool ↦
        { tables := growUnderLoad state, s := (growUnderLoad state).sizePool, idxPool := idxPool }
    else
      (nextIndex state.idxPool state.s).map fun idxPool ↦ { state with idxPool := idxPool }
  else none

/-! ### The next index -/

theorem nextIndex_eq_some {idxPool : ℤ} {s next : ℕ} (hnext : nextIndex idxPool s = some next) :
    next < s ∧ next = ((idxPool + 1) % 2 ^ 64).toNat % s := by
  unfold nextIndex at hnext
  split_ifs at hnext with hdefined
  rw [Option.some.injEq] at hnext
  exact ⟨hnext ▸ Nat.mod_lt _ (Nat.pos_of_ne_zero hdefined.1), hnext.symm⟩

/-- Behind an index of the table comes the next one, around the end. -/
theorem nextIndex_of_lt {idxPool s : ℕ} (hidx : idxPool < tableSize) (hs : 0 < s) :
    nextIndex idxPool s = some ((idxPool + 1) % s) := by
  have htable : idxPool + 1 ≤ 32 := hidx
  have hvalue : (((idxPool : ℤ) + 1) % 2 ^ 64).toNat = idxPool + 1 := by
    rw [Int.emod_eq_of_lt (by omega) (by omega)]
    omega
  have hle : (idxPool + 1) % s ≤ idxPool + 1 := Nat.mod_le _ _
  unfold nextIndex
  rw [hvalue, if_pos ⟨by omega, by omega, by omega⟩]

/-- When all threads can be counted in an `int`, the index under load is a multiple of `s`. -/
theorem loadIndex_of_lt {numThreadPool s : ℕ} (hfits : numThreadPool * s < 2 ^ 31) :
    loadIndex numThreadPool s = (numThreadPool * s : ℕ) := by
  have hsize : numThreads numThreadPool s = numThreadPool * s := Nat.mod_eq_of_lt (by omega)
  unfold loadIndex
  rw [hsize, Int.bmod_eq_of_le (by omega) (by omega)]

/-- The two ways of an accept: under load the pools may grow and the index is computed from the
number of threads, otherwise the index goes on by one. -/
theorem acceptStep_cases {numThreadPool maxDescriptor : ℕ} {state next : AcceptLoop}
    (hstep : acceptStep numThreadPool state maxDescriptor = some next) :
    state.idxPool < tableSize ∧
      ((Overloaded numThreadPool state.s maxDescriptor ∧ next.tables = growUnderLoad state ∧
          next.s = next.tables.sizePool ∧
          nextIndex (loadIndex numThreadPool state.s) next.s = some next.idxPool) ∨
        (¬ Overloaded numThreadPool state.s maxDescriptor ∧ next.tables = state.tables ∧
          next.s = state.s ∧ nextIndex state.idxPool state.s = some next.idxPool)) := by
  unfold acceptStep at hstep
  split_ifs at hstep with htable hload
  · obtain ⟨idxPool, hnext, rfl⟩ := Option.map_eq_some_iff.mp hstep
    exact ⟨htable, Or.inl ⟨hload, rfl, rfl, hnext⟩⟩
  · obtain ⟨idxPool, hnext, rfl⟩ := Option.map_eq_some_iff.mp hstep
    exact ⟨htable, Or.inr ⟨hload, rfl, rfl, hnext⟩⟩

/-- The next index is an index below the number of pools. -/
theorem idxPool_lt_of_acceptStep {numThreadPool maxDescriptor : ℕ} {state next : AcceptLoop}
    (hstep : acceptStep numThreadPool state maxDescriptor = some next) : next.idxPool < next.s := by
  rcases (acceptStep_cases hstep).2 with ⟨-, -, -, hnext⟩ | ⟨-, -, hs, hnext⟩
  · exact (nextIndex_eq_some hnext).1
  · rw [hs]
    exact (nextIndex_eq_some hnext).1

end ImageApp.Server
