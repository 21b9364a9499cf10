import ImageApp.Foundations.CyclicWalk
import ImageApp.Foundations.GuardedRuns
import ImageApp.Server.AcceptLoop

/-!
# The pools take turns

The accept loop moves `idx_pool` on by one after each connection, modulo the number of pools. When
it finds the load at half of the threads it overwrites the index with the number of threads first,
also when the pools cannot grow any more, so the next connection goes to pool 1.

Over a window in which the number of pools stays the same the indices are a walk around a ring:
`regular_iff_inTurn` says that a step of the walk is regular when the connection was accepted below
the load or at the index that is followed by the index under load. `nodup_assignments_iff` is the
resulting condition for a window of as many connections as there are pools.
-/

set_option autoImplicit false
set_option relaxedAutoImplicit false

namespace ImageApp.Pools

open Foundations.CyclicWalk Foundations.GuardedRuns Server

variable {n : ℕ}

/-- The values of `idx_pool` with which connections are accepted under the given loads. -/
def assignments (n : ℕ) : AcceptLoop → List ℕ → List ℕ
  | _, [] => []
  | state, load :: rest =>
    state.idxPool :: (acceptStep n state load).elim [] fun next ↦ assignments n next rest

/-- The connection is accepted below the load, or the index under load is the next one anyway. -/
def InTurn (n : ℕ) (state : AcceptLoop) (maxDescriptor : ℕ) : Prop :=
  ¬ Overloaded n state.s maxDescriptor ∨
    nextIndex (loadIndex n state.s) state.s = nextIndex state.idxPool state.s

instance decidableInTurn (n : ℕ) (state : AcceptLoop) (maxDescriptor : ℕ) :
    Decidable (InTurn n state maxDescriptor) :=
  inferInstanceAs (Decidable (_ ∨ _))

/-- The number of pools is the given one. -/
def PoolsAre (size : ℕ) (state : AcceptLoop) (_ : ℕ) : Prop :=
  state.s = size

instance decidablePoolsAre (size : ℕ) (state : AcceptLoop) (maxDescriptor : ℕ) :
    Decidable (PoolsAre size state maxDescriptor) :=
  inferInstanceAs (Decidable (_ = _))

/-- When all threads can be counted in an `int`, the index under load is followed by pool 1. -/
theorem inTurn_iff {state : AcceptLoop} {maxDescriptor : ℕ} (hs : 2 ≤ state.s)
    (hidx : state.idxPool < state.s) (htable : state.idxPool < tableSize)
    (hfits : n * state.s + 1 < 2 ^ 31) :
    InTurn n state maxDescriptor ↔ ¬ Overloaded n state.s maxDescriptor ∨ state.idxPool = 0 := by
  have hload : nextIndex (loadIndex n state.s) state.s = some 1 := by
    have hvalue : ((((n * state.s : ℕ) : ℤ) + 1) % 2 ^ 64).toNat = n * state.s + 1 := by
      rw [Int.emod_eq_of_lt (by omega) (by omega)]
      omega
    have hone : (n * state.s + 1) % state.s = 1 := by
      rw [Nat.mul_comm, Nat.mul_add_mod, Nat.mod_eq_of_lt (by omega)]
    unfold nextIndex
    rw [loadIndex_of_lt (by omega), hvalue, hone, if_pos ⟨by omega, by omega, by omega⟩]
  have hnext : 1 = (state.idxPool + 1) % state.s ↔ state.idxPool = 0 := by
    constructor
    · intro heq
      by_contra hne
      rcases Nat.lt_or_ge (state.idxPool + 1) state.s with hlt | hge
      · rw [Nat.mod_eq_of_lt hlt] at heq
        omega
      · have hend : state.idxPool + 1 = state.s := by omega
        rw [hend, Nat.mod_self] at heq
        omega
    · intro heq
      rw [heq, Nat.zero_add, Nat.mod_eq_of_lt (by omega)]
  unfold InTurn
  rw [hload, nextIndex_of_lt htable (by omega), Option.some.injEq, hnext]

/-! ### A window -/

/-- Between two connections with the same number of pools, the step is regular when the connection
was accepted in turn. -/
theorem regular_iff_inTurn {state next : AcceptLoop} {load : ℕ}
    (hstep : acceptStep n state load = some next) (hpools : next.s = state.s) :
    Regular state.s state.idxPool next.idxPool ↔ InTurn n state load := by
  obtain ⟨htable, hcases⟩ := acceptStep_cases hstep
  have hpos : 0 < state.s := by
    have hlt := idxPool_lt_of_acceptStep hstep
    omega
  rcases hcases with ⟨hload, -, -, hnext⟩ | ⟨hload, -, -, hnext⟩
  · rw [hpools] at hnext
    unfold InTurn
    rw [hnext, nextIndex_of_lt htable hpos, Option.some.injEq, Regular]
    exact (or_iff_right (not_not_intro hload)).symm
  · rw [nextIndex_of_lt htable hpos, Option.some.injEq] at hnext
    exact iff_of_true hnext.symm (Or.inl hload)

/-- Between two connections with the same number of pools, the step is regular or goes to the index
behind the one under load. -/
theorem regularOrHome_of_acceptStep {state next : AcceptLoop} {load home : ℕ}
    (hstep : acceptStep n state load = some next) (hpools : next.s = state.s)
    (hhome : ∀ idxPool, nextIndex (loadIndex n state.s) state.s = some idxPool → idxPool = home) :
    RegularOrHome state.s home state.idxPool next.idxPool := by
  by_cases hturn : InTurn n state load
  · exact Or.inl ((regular_iff_inTurn hstep hpools).mpr hturn)
  · rcases (acceptStep_cases hstep).2 with ⟨-, -, -, hnext⟩ | ⟨hload, -⟩
    · rw [hpools] at hnext
      exact Or.inr (hhome _ hnext)
    · exact absurd (Or.inl hload) hturn

/-- The indices of a window are below the number of pools, and as many as the connections. -/
theorem assignments_spec {size : ℕ} {state final : AcceptLoop} {loads : List ℕ}
    (hidx : state.idxPool < state.s) (hpools : Guarded (acceptStep n) (PoolsAre size) state loads)
    (hrun : run (acceptStep n) state loads = some final) :
    (assignments n state loads).length = loads.length ∧
      ∀ idxPool ∈ assignments n state loads, idxPool < size := by
  induction loads generalizing state with
  | nil => simp [assignments]
  | cons load rest ih =>
    obtain ⟨next, hnext, hrest⟩ := run_cons_eq_some.mp hrun
    obtain ⟨hlength, hplaces⟩ := ih (idxPool_lt_of_acceptStep hnext) (hpools.2 next hnext) hrest
    have hsize : state.s = size := hpools.1
    rw [assignments, hnext, Option.elim_some]
    refine ⟨by rw [List.length_cons, hlength, List.length_cons], fun idxPool hmem ↦ ?_⟩
    rcases List.mem_cons.mp hmem with rfl | hlater
    · omega
    · exact hplaces idxPool hlater

/-- The indices of a window are a walk. -/
theorem isChain_assignments {size home : ℕ} {state final : AcceptLoop} {loads : List ℕ}
    (hhome : ∀ idxPool, nextIndex (loadIndex n size) size = some idxPool → idxPool = home)
    (hpools : Guarded (acceptStep n) (PoolsAre size) state loads)
    (hrun : run (acceptStep n) state loads = some final) :
    (assignments n state loads).IsChain (RegularOrHome size home) := by
  induction loads generalizing state with
  | nil => exact List.isChain_nil
  | cons load rest ih =>
    obtain ⟨next, hnext, hrest⟩ := run_cons_eq_some.mp hrun
    have hwalk := ih (hpools.2 next hnext) hrest
    have hsize : state.s = size := hpools.1
    rw [assignments, hnext, Option.elim_some]
    cases rest with
    | nil => exact List.isChain_singleton _
    | cons load' rest =>
      have hsame : next.s = state.s := (hpools.2 next hnext).1.trans hsize.symm
      rw [assignments] at hwalk ⊢
      rw [List.isChain_cons_cons]
      refine ⟨?_, hwalk⟩
      rw [← hsize] at hhome ⊢
      exact regularOrHome_of_acceptStep hnext hsame hhome

/-- The walk is regular when all its connections but the last are accepted in turn. -/
theorem isChain_regular_iff {size : ℕ} {state final : AcceptLoop} {loads : List ℕ}
    (hpools : Guarded (acceptStep n) (PoolsAre size) state loads)
    (hrun : run (acceptStep n) state loads = some final) :
    (assignments n state loads).IsChain (Regular size) ↔
      Guarded (acceptStep n) (InTurn n) state loads.dropLast := by
  induction loads generalizing state with
  | nil => exact iff_of_true List.isChain_nil (guarded_nil state)
  | cons load rest ih =>
    obtain ⟨next, hnext, hrest⟩ := run_cons_eq_some.mp hrun
    have hwalk := ih (hpools.2 next hnext) hrest
    have hsize : state.s = size := hpools.1
    rw [assignments, hnext, Option.elim_some]
    cases rest with
    | nil => exact iff_of_true (List.isChain_singleton _) (guarded_nil state)
    | cons load' rest =>
      have hsame : next.s = state.s := (hpools.2 next hnext).1.trans hsize.symm
      rw [List.dropLast_cons_cons, guarded_cons, hnext]
      rw [assignments] at hwalk ⊢
      rw [List.isChain_cons_cons, hwalk, ← hsize, regular_iff_inTurn hnext hsame]
      simp

/-- Every index that is reached is below the number of pools. -/
theorem idxPool_lt_of_run {size : ℕ} {before : List ℕ} {state : AcceptLoop} (hsize : 0 < size)
    (hreach : run (acceptStep n) (initServer size) before = some state) :
    state.idxPool < state.s :=
  invariant_of_run (fun _ _ _ _ hstep ↦ idxPool_lt_of_acceptStep hstep) hsize hreach

/-- As many consecutive connections as there are pools, whose number stays the same, are assigned to
different indices if and only if all of them but the last are accepted in turn. -/
theorem nodup_assignments_iff {size : ℕ} {before loads : List ℕ} {state final : AcceptLoop}
    (hsize : 0 < size) (hreach : run (acceptStep n) (initServer size) before = some state)
    (hwindow : run (acceptStep n) state loads = some final) (hlength : loads.length = state.s)
    (hpools : Guarded (acceptStep n) (PoolsAre state.s) state loads) :
    (assignments n state loads).Nodup ↔
      Guarded (acceptStep n) (InTurn n) state loads.dropLast := by
  obtain ⟨hcount, hplaces⟩ := assignments_spec (idxPool_lt_of_run hsize hreach) hpools hwindow
  have hhome : ∀ idxPool, nextIndex (loadIndex n state.s) state.s = some idxPool →
      idxPool = (nextIndex (loadIndex n state.s) state.s).getD 0 := by
    intro idxPool hindex
    rw [hindex, Option.getD_some]
  rw [nodup_iff_regular hplaces (hcount.trans hlength) (isChain_assignments hhome hpools hwindow),
    isChain_regular_iff hpools hwindow]

/-- Two pools with two threads each take turns below the load. -/
theorem nodup_assignments_two :
    ∃ state final, run (acceptStep 2) (initServer 2) [1] = some state ∧
      run (acceptStep 2) state [0, 1] = some final ∧
      ((assignments 2 state [0, 1]).Nodup ↔
        Guarded (acceptStep 2) (InTurn 2) state [0, 1].dropLast) ∧
      assignments 2 state [0, 1] = [1, 0] := by
  refine ⟨⟨initPools 2, 2, 1⟩, ⟨initPools 2, 2, 1⟩, by decide, by decide, ?_, by decide⟩
  exact @nodup_assignments_iff 2 2 [1] [0, 1] _ ⟨initPools 2, 2, 1⟩ (by decide) (by decide)
    (by decide) rfl (by decide)

/-- Under load all connections but the first go to pool 1 when the pools cannot grow any more. -/
theorem not_nodup_assignments :
    (¬ ∀ (n size : ℕ) (before loads : List ℕ) (state final : AcceptLoop), 1 ≤ n → 0 < size →
      run (acceptStep n) (initServer size) before = some state →
        run (acceptStep n) state loads = some final → 2 ≤ state.s → loads.length = state.s →
          Guarded (acceptStep n) (PoolsAre state.s) state loads →
            (assignments n state loads).Nodup) ∧
      assignments 1 (initServer 16) (List.replicate 16 8) = 0 :: List.replicate 15 1 := by
  refine ⟨fun hspread ↦ ?_, by decide +kernel⟩
  obtain ⟨final, hwindow⟩ := Option.isSome_iff_exists.mp
    (show (run (acceptStep 1) (initServer 16) (List.replicate 16 8)).isSome = true by
      decide +kernel)
  have hnodup := hspread 1 16 [] (List.replicate 16 8) (initServer 16) final (by decide) (by decide)
    rfl hwindow (by decide) (by decide) (by decide +kernel)
  revert hnodup
  decide +kernel

end ImageApp.Pools
