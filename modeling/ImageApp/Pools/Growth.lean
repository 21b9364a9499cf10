import ImageApp.Foundations.GuardedRuns
import ImageApp.Server.AcceptLoop
import Mathlib.Data.List.Nodup

/-!
# The growth of the pools

`handle_pool` sets up as many indices as there are pools, behind those that exist, and doubles
`size_pool`; the accept loop requests a growth while twice its `s` is below 32, and reads
`size_pool` again behind it.

`grown_step` is the invariant of the two: `s` is `size_pool`, the tables were set up for exactly the
indices below it, each once, and the next index is one of them. With as many threads as an `int` can
count no step of the accept loop is undefined: `exists_acceptStep`.
-/

set_option autoImplicit false
set_option relaxedAutoImplicit false

namespace ImageApp.Pools

open Foundations.GuardedRuns Server

/-- What is promised of the accept loop in front of a connection: `s` is the number of pools, which
the tables hold, every pool was set up once, and the index is the one of a pool. -/
structure IndicesInTables (state : AcceptLoop) : Prop where
  s_eq : state.s = state.tables.sizePool
  sizePool_le : state.tables.sizePool ≤ 32
  allocated : ∀ i < state.tables.sizePool, state.tables.allocated.count i = 1
  initialised : ∀ i < state.tables.sizePool, state.tables.initialised.count i = 1
  jobs : ∀ i < state.tables.sizePool, state.tables.jobs.count i = 1
  nodup : state.tables.allocated.Nodup ∧ state.tables.initialised.Nodup ∧ state.tables.jobs.Nodup
  idxPool_lt : state.idxPool < state.tables.sizePool

/-- The indices below a size were set up in order. -/
structure SetUp (tables : PoolTables) : Prop where
  allocated : tables.allocated = List.range tables.sizePool
  initialised : tables.initialised = List.range tables.sizePool
  jobs : tables.jobs = List.range tables.sizePool

/-- The invariant of the accept loop. -/
structure Grown (state : AcceptLoop) : Prop where
  s_eq : state.s = state.tables.sizePool
  sizePool_pos : 0 < state.tables.sizePool
  sizePool_le : state.tables.sizePool ≤ 32
  setUp : SetUp state.tables
  idxPool_lt : state.idxPool < state.tables.sizePool

theorem setUp_initPools (sizePool : ℕ) : SetUp (initPools sizePool) :=
  ⟨rfl, rfl, rfl⟩

/-- A round of `handle_pool` goes on where the indices end. -/
theorem range_append_grownIndices (sizePool : ℕ) :
    List.range sizePool ++ grownIndices sizePool = List.range (sizePool + sizePool) := by
  rw [List.range_add]
  rfl

/-- A round of `handle_pool` doubles the number of pools that are set up. -/
theorem setUp_growPools {tables : PoolTables} (hsetUp : SetUp tables)
    (hsize : tables.sizePool ≤ 32) :
    SetUp (growPools tables) ∧ (growPools tables).sizePool = tables.sizePool + tables.sizePool := by
  have hdouble : (growPools tables).sizePool = tables.sizePool + tables.sizePool :=
    Nat.mod_eq_of_lt (by omega)
  refine ⟨⟨?_, ?_, ?_⟩, hdouble⟩
  · rw [hdouble, ← range_append_grownIndices, growPools, hsetUp.allocated]
  · rw [hdouble, ← range_append_grownIndices, growPools, hsetUp.initialised]
  · rw [hdouble, ← range_append_grownIndices, growPools, hsetUp.jobs]

/-- The growth that the accept loop requests keeps the number of pools within the tables. -/
theorem setUp_growUnderLoad {state : AcceptLoop} (hinv : Grown state) :
    SetUp (growUnderLoad state) ∧ 0 < (growUnderLoad state).sizePool ∧
      (growUnderLoad state).sizePool ≤ 32 := by
  have hs := hinv.s_eq
  have hpos := hinv.sizePool_pos
  have hle := hinv.sizePool_le
  unfold growUnderLoad
  split_ifs with hgrow
  · obtain ⟨hsetUp, hdouble⟩ := setUp_growPools hinv.setUp hle
    exact ⟨hsetUp, by omega, by omega⟩
  · exact ⟨hinv.setUp, hpos, hle⟩

theorem grown_initServer {sizePool : ℕ} (hpos : 1 ≤ sizePool) (hle : sizePool ≤ 32) :
    Grown (initServer sizePool) where
  s_eq := rfl
  sizePool_pos := hpos
  sizePool_le := hle
  setUp := setUp_initPools sizePool
  idxPool_lt := hpos

/-- An accept keeps the invariant, with and without a growth. -/
theorem grown_step {n : ℕ} (state : AcceptLoop) (maxDescriptor : ℕ) (next : AcceptLoop)
    (hinv : Grown state) (hstep : acceptStep n state maxDescriptor = some next) : Grown next := by
  have hidx := idxPool_lt_of_acceptStep hstep
  rcases (acceptStep_cases hstep).2 with ⟨-, htables, hs, -⟩ | ⟨-, htables, hs, -⟩
  · obtain ⟨hsetUp, hpos, hle⟩ := setUp_growUnderLoad hinv
    rw [← htables] at hsetUp hpos hle
    exact ⟨hs, hpos, hle, hsetUp, hs ▸ hidx⟩
  · have hsEq : next.s = next.tables.sizePool := by rw [hs, htables, hinv.s_eq]
    refine ⟨hsEq, ?_, ?_, ?_, hsEq ▸ hidx⟩
    · rw [htables]
      exact hinv.sizePool_pos
    · rw [htables]
      exact hinv.sizePool_le
    · rw [htables]
      exact hinv.setUp

/-- With as many threads as an `int` can count the loop always goes on to another index. -/
theorem exists_acceptStep {n : ℕ} {state : AcceptLoop} (hn : 32 * n + 1 < 2 ^ 31)
    (hinv : Grown state) (maxDescriptor : ℕ) :
    ∃ next, acceptStep n state maxDescriptor = some next := by
  have hs := hinv.s_eq
  have hle := hinv.sizePool_le
  have hidx := hinv.idxPool_lt
  have htable : state.idxPool < tableSize := Nat.lt_of_lt_of_le hidx hle
  unfold acceptStep
  rw [if_pos htable]
  split_ifs with hload
  · obtain ⟨-, hpos, hsize⟩ := setUp_growUnderLoad hinv
    have hproduct : n * state.s ≤ 32 * n := by
      rw [Nat.mul_comm]
      exact Nat.mul_le_mul_right n (hs ▸ hle)
    have hmod := Nat.mod_lt ((((n * state.s : ℕ) : ℤ) + 1) % 2 ^ 64).toNat hpos
    unfold nextIndex
    rw [loadIndex_of_lt (by omega), if_pos ⟨by omega, by omega, by omega⟩]
    exact ⟨_, rfl⟩
  · rw [nextIndex_of_lt htable (hs ▸ hinv.sizePool_pos)]
    exact ⟨_, rfl⟩

/-- Indices that were set up in order were set up once. -/
theorem indicesInTables_of_grown {state : AcceptLoop} (hinv : Grown state) :
    IndicesInTables state := by
  have hcount : ∀ i < state.tables.sizePool, (List.range state.tables.sizePool).count i = 1 :=
    fun i hi ↦ List.count_eq_one_of_mem List.nodup_range (List.mem_range.mpr hi)
  obtain ⟨hallocated, hinitialised, hjobs⟩ := hinv.setUp
  refine ⟨hinv.s_eq, hinv.sizePool_le, ?_, ?_, ?_, ?_, hinv.idxPool_lt⟩
  · rw [hallocated]
    exact hcount
  · rw [hinitialised]
    exact hcount
  · rw [hjobs]
    exact hcount
  · rw [hallocated, hinitialised, hjobs]
    exact ⟨List.nodup_range, List.nodup_range, List.nodup_range⟩

/-- In every run of the accept loop the indices stay in the tables, and the loop can always accept
another connection. -/
theorem indicesInTables_of_run {n sizePool : ℕ} {loads : List ℕ} {state : AcceptLoop}
    (hn : 32 * n + 1 < 2 ^ 31) (hpos : 1 ≤ sizePool) (hle : sizePool ≤ 32)
    (hrun : run (acceptStep n) (initServer sizePool) loads = some state) :
    IndicesInTables state ∧
      ∀ maxDescriptor, ∃ next, acceptStep n state maxDescriptor = some next := by
  have hinv : Grown state := invariant_of_run grown_step (grown_initServer hpos hle) hrun
  exact ⟨indicesInTables_of_grown hinv, exists_acceptStep hn hinv⟩

/-- Three pools of two threads grow to six, twelve and twenty-four. -/
theorem indicesInTables_three :
    ∃ state, run (acceptStep 2) (initServer 3) [1, 3, 6, 7, 12, 24] = some state ∧
      state.tables.sizePool = 24 ∧ IndicesInTables state := by
  obtain ⟨state, hrun, hsize⟩ := Option.map_eq_some_iff.mp
    (show (run (acceptStep 2) (initServer 3) [1, 3, 6, 7, 12, 24]).map
      (fun state ↦ state.tables.sizePool) = some 24 by decide +kernel)
  exact ⟨state, hrun, hsize,
    (indicesInTables_of_run (by decide) (by decide) (by decide) hrun).1⟩

end ImageApp.Pools
