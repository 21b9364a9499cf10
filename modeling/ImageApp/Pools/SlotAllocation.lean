import ImageApp.Foundations.GuardedRuns
import ImageApp.Server.PoolRing

/-!
# The allocation of slots

A pool dispatches connections to free slots with `get_E`, each search starting behind the slot that
the last one has returned, and workers release their slots. The log keeps the slots in the order in
which they were dispatched and released.

`allocation_step` is the invariant: a slot that was dispatched and not released since is not free.
`ahead_step` is the measure: as long as a free slot is not dispatched, every dispatch moves the
start of the search closer to it. `slotAllocation_of_run` puts both together for a run of any
dispatches and releases. `getE_firstFree` says which slot a single search returns.
-/

set_option autoImplicit false
set_option relaxedAutoImplicit false

namespace ImageApp.Pools

open Foundations.CyclicScan Foundations.GuardedRuns Server

variable {n : ℕ}

/-- A dispatch of a connection, or the release of a slot. -/
inductive SlotAction (n : ℕ)
  | dispatch (connSd : Descriptor) (clientAddr : SockaddrIn)
  | release (nE : Fin n)

/-- What happened to a slot. -/
inductive SlotEvent (n : ℕ)
  | dispatched (nE : Fin n)
  | released (nE : Fin n)
  deriving DecidableEq

/-- A pool, with what has happened to its slots so far. -/
structure SlotRun (n : ℕ) where
  pool : PoolT n
  log : List (SlotEvent n)

/-- A dispatch is `get_E` and the stores of `dispatch_job`, and waits while no slot is free. -/
def slotStep [NeZero n] (state : SlotRun n) : SlotAction n → Option (SlotRun n)
  | .dispatch connSd clientAddr =>
    (getE state.pool).map fun (nE, pool) ↦
      { pool := dispatchTo pool nE connSd clientAddr
        log := state.log ++ [.dispatched nE] }
  | .release nE => some
    { pool := releaseSlot state.pool nE
      log := state.log ++ [.released nE] }

/-- The action is a dispatch. -/
def isDispatch : SlotAction n → Bool
  | .dispatch _ _ => true
  | .release _ => false

/-- No slot was dispatched a second time without a release in between. -/
def Exclusive (log : List (SlotEvent n)) : Prop :=
  ∀ before between after nE,
    log = before ++ .dispatched nE :: between ++ .dispatched nE :: after → .released nE ∈ between

/-- The slot was dispatched and not released since. -/
def Occupied (log : List (SlotEvent n)) (nE : Fin n) : Prop :=
  ∃ before after, log = before ++ .dispatched nE :: after ∧ .released nE ∉ after

/-! ### A slot has one client at a time -/

/-- The last event of a log is the only place where a new pair of dispatches can end. -/
theorem exclusive_concat {log : List (SlotEvent n)} {event : SlotEvent n}
    (hexclusive : Exclusive log)
    (hlast : ∀ nE, event = .dispatched nE → ¬ Occupied log nE) : Exclusive (log ++ [event]) := by
  intro before between after nE hsplit
  rcases List.eq_nil_or_concat after with rfl | ⟨init, last, rfl⟩
  · obtain ⟨rfl, hevent⟩ := List.append_inj' hsplit rfl
    rw [List.cons.injEq] at hevent
    by_contra hreleased
    exact hlast nE hevent.1 ⟨before, between, rfl, hreleased⟩
  · have hsplit' : log ++ [event] =
        (before ++ .dispatched nE :: between ++ .dispatched nE :: init) ++ [last] := by
      rw [hsplit, List.concat_eq_append]
      simp
    obtain ⟨rfl, -⟩ := List.append_inj' hsplit' rfl
    exact hexclusive before between init nE rfl

/-- A slot is occupied after an event when it was dispatched by it, or was occupied before and is
not released by it. -/
theorem occupied_concat {log : List (SlotEvent n)} {event : SlotEvent n} {nE : Fin n}
    (hoccupied : Occupied (log ++ [event]) nE) :
    event = .dispatched nE ∨ (Occupied log nE ∧ event ≠ .released nE) := by
  obtain ⟨before, after, hsplit, hreleased⟩ := hoccupied
  rcases List.eq_nil_or_concat after with rfl | ⟨init, last, rfl⟩
  · obtain ⟨-, hevent⟩ := List.append_inj' hsplit rfl
    rw [List.cons.injEq] at hevent
    exact Or.inl hevent.1
  · rw [List.concat_eq_append] at hsplit hreleased
    have hsplit' : log ++ [event] = (before ++ .dispatched nE :: init) ++ [last] := by
      rw [hsplit]
      simp
    obtain ⟨rfl, hevent⟩ := List.append_inj' hsplit' rfl
    rw [List.cons.injEq] at hevent
    rw [List.mem_append, not_or, List.mem_singleton] at hreleased
    refine Or.inr ⟨⟨before, init, rfl, hreleased.1⟩, fun heq ↦ hreleased.2 ?_⟩
    rw [← heq, hevent.1]

variable [NeZero n]

/-- What a step can do: it dispatches a slot that the search has found, or it releases one. -/
theorem slotStep_cases {state next : SlotRun n} {action : SlotAction n}
    (hstep : slotStep state action = some next) :
    (∃ nE connSd clientAddr, action = .dispatch connSd clientAddr ∧
      scan (isFree state.pool) state.pool.e 0 n = some nE ∧
      next = ⟨dispatchTo { state.pool with e := (nE + 1) % n } nE connSd clientAddr,
        state.log ++ [.dispatched nE]⟩) ∨
    ∃ nE, action = .release nE ∧
      next = ⟨releaseSlot state.pool nE, state.log ++ [.released nE]⟩ := by
  cases action with
  | dispatch connSd clientAddr =>
    obtain ⟨⟨nE, pool⟩, hget, rfl⟩ := Option.map_eq_some_iff.mp hstep
    obtain ⟨hscan, rfl⟩ := getE_eq_some hget
    exact Or.inl ⟨nE, connSd, clientAddr, rfl, hscan, rfl⟩
  | release nE =>
    rw [slotStep, Option.some.injEq] at hstep
    exact Or.inr ⟨nE, rfl, hstep.symm⟩

/-- The invariant of a run. -/
structure Allocation (state : SlotRun n) : Prop where
  e_lt : state.pool.e < n
  exclusive : Exclusive state.log
  taken : ∀ nE, Occupied state.log nE → isFree state.pool nE = false

omit [NeZero n] in
theorem allocation_start {pool : PoolT n} (he : pool.e < n) : Allocation ⟨pool, []⟩ where
  e_lt := he
  exclusive := by
    intro before between after nE hsplit
    simp at hsplit
  taken := by
    rintro nE ⟨before, after, hsplit, -⟩
    simp at hsplit

/-- A dispatch and a release keep the invariant. -/
theorem allocation_step (state : SlotRun n) (action : SlotAction n) (next : SlotRun n)
    (hinv : Allocation state) (hstep : slotStep state action = some next) : Allocation next := by
  rcases slotStep_cases hstep with ⟨nE, connSd, clientAddr, -, hscan, rfl⟩ | ⟨nE, -, rfl⟩
  · have hfree : isFree state.pool nE = true := (scan_spec hinv.e_lt hscan).1
    refine ⟨Nat.mod_lt _ (Nat.pos_of_neZero n), exclusive_concat hinv.exclusive ?_, ?_⟩
    · intro other hevent hoccupied
      rw [SlotEvent.dispatched.injEq] at hevent
      rw [hevent, hinv.taken other hoccupied] at hfree
      exact Bool.false_ne_true hfree
    · intro other hoccupied
      by_cases heq : other = nE
      · rw [heq]
        exact isFree_dispatchTo_self ..
      · show isFree (dispatchTo _ nE connSd clientAddr) other = false
        rw [isFree_dispatchTo_of_ne _ heq, isFree_setE]
        rcases occupied_concat hoccupied with hevent | ⟨hbefore, -⟩
        · rw [SlotEvent.dispatched.injEq] at hevent
          exact absurd hevent.symm heq
        · exact hinv.taken other hbefore
  · refine ⟨hinv.e_lt, exclusive_concat hinv.exclusive ?_, ?_⟩
    · intro other hevent
      simp at hevent
    · intro other hoccupied
      rcases occupied_concat hoccupied with hevent | ⟨hbefore, hkept⟩
      · simp at hevent
      · have hne : other ≠ nE := fun heq ↦ hkept (by rw [heq])
        show isFree (releaseSlot state.pool nE) other = false
        rw [isFree_releaseSlot_of_ne _ hne]
        exact hinv.taken other hbefore

/-! ### No slot is left out -/

/-- A free slot is dispatched, or it stays free; then a dispatch brings the start of the search
closer to it, and a release leaves the start where it is. -/
theorem ahead_step {state next : SlotRun n} {action : SlotAction n} {nE : Fin n}
    (he : state.pool.e < n) (hfree : isFree state.pool nE = true)
    (hstep : slotStep state action = some next) :
    next.log = state.log ++ [.dispatched nE] ∨
      (isFree next.pool nE = true ∧ (∃ event, next.log = state.log ++ [event]) ∧
        (if isDispatch action then ahead next.pool.e nE < ahead state.pool.e nE
          else ahead next.pool.e nE = ahead state.pool.e nE)) := by
  rcases slotStep_cases hstep with ⟨found, connSd, clientAddr, rfl, hscan, rfl⟩ | ⟨found, rfl, rfl⟩
  · by_cases heq : found = nE
    · exact Or.inl (by rw [heq])
    · refine Or.inr ⟨?_, ⟨_, rfl⟩, ?_⟩
      · show isFree (dispatchTo _ found connSd clientAddr) nE = true
        rw [isFree_dispatchTo_of_ne _ (Ne.symm heq), isFree_setE]
        exact hfree
      · exact ahead_scan_lt he hscan hfree heq
  · refine Or.inr ⟨?_, ⟨_, rfl⟩, rfl⟩
    show isFree (releaseSlot state.pool found) nE = true
    by_cases heq : nE = found
    · rw [heq]
      exact isFree_releaseSlot_self ..
    · rw [isFree_releaseSlot_of_ne _ heq]
      exact hfree

/-- A run only adds to the log. -/
theorem exists_log_of_run {state final : SlotRun n} {actions : List (SlotAction n)}
    (hrun : run slotStep state actions = some final) :
    ∃ events, final.log = state.log ++ events := by
  induction actions generalizing state with
  | nil =>
    rw [run_nil, Option.some.injEq] at hrun
    exact ⟨[], by rw [hrun, List.append_nil]⟩
  | cons action rest ih =>
    obtain ⟨next, hnext, hrest⟩ := run_cons_eq_some.mp hrun
    obtain ⟨events, hevents⟩ := ih hrest
    rcases slotStep_cases hnext with ⟨nE, _, _, -, -, rfl⟩ | ⟨nE, -, rfl⟩
    · exact ⟨.dispatched nE :: events, by rw [hevents, List.append_assoc, List.singleton_append]⟩
    · exact ⟨.released nE :: events, by rw [hevents, List.append_assoc, List.singleton_append]⟩

/-- A free slot is dispatched when there are more dispatches than slots ahead of it. -/
theorem dispatched_of_countP {state final : SlotRun n} {actions : List (SlotAction n)} {nE : Fin n}
    (hinv : Allocation state) (hfree : isFree state.pool nE = true)
    (hrun : run slotStep state actions = some final)
    (hcount : ahead state.pool.e nE < actions.countP isDispatch) :
    ∃ events, final.log = state.log ++ events ∧ .dispatched nE ∈ events := by
  induction actions generalizing state with
  | nil => simp at hcount
  | cons action rest ih =>
    obtain ⟨next, hnext, hrest⟩ := run_cons_eq_some.mp hrun
    rcases ahead_step hinv.e_lt hfree hnext with hlog | ⟨hstays, ⟨event, hlog⟩, hahead⟩
    · obtain ⟨events, hevents⟩ := exists_log_of_run hrest
      refine ⟨.dispatched nE :: events, ?_, List.mem_cons_self ..⟩
      rw [hevents, hlog, List.append_assoc, List.singleton_append]
    · have hnear : ahead next.pool.e nE < rest.countP isDispatch := by
        rw [List.countP_cons] at hcount
        split_ifs at hahead hcount with hdispatch
        · omega
        · omega
      obtain ⟨events, hevents, hmem⟩ := ih (allocation_step _ _ _ hinv hnext) hstays hrest hnear
      refine ⟨event :: events, ?_, List.mem_cons_of_mem _ hmem⟩
      rw [hevents, hlog, List.append_assoc, List.singleton_append]

/-- In every run of dispatches and releases the start of the search stays in the ring, no slot is
dispatched again before it was released, and a slot that is free before `n` dispatches is returned
by one of them. -/
theorem slotAllocation_of_run {pool : PoolT n} {first window : List (SlotAction n)}
    {state final : SlotRun n} (he : pool.e < n)
    (hfirst : run slotStep ⟨pool, []⟩ first = some state)
    (hwindow : run slotStep state window = some final) :
    final.pool.e < n ∧ Exclusive final.log ∧
      ∀ nE, isFree state.pool nE = true → n ≤ window.countP isDispatch →
        ∃ events, final.log = state.log ++ events ∧ .dispatched nE ∈ events := by
  have hstate : Allocation state := invariant_of_run allocation_step (allocation_start he) hfirst
  have hfinal : Allocation final := invariant_of_run allocation_step hstate hwindow
  refine ⟨hfinal.e_lt, hfinal.exclusive, fun nE hfree hcount ↦ ?_⟩
  exact dispatched_of_countP hstate hfree hwindow (Nat.lt_of_lt_of_le (ahead_lt _ _) hcount)

/-- Three slots, of which one was dispatched and two are dispatched next, with a release. -/
theorem slotAllocation_three :
    ∃ state final : SlotRun 3,
      run slotStep ⟨allocatedPool 3, []⟩ [.dispatch 4 (0, 0)] = some state ∧
        run slotStep state
          [.dispatch 5 (0, 0), .release 0, .dispatch 6 (0, 0), .dispatch 7 (0, 0)] = some final ∧
        final.pool.e < 3 ∧ Exclusive final.log ∧
          ∀ nE, isFree state.pool nE = true →
            ∃ events, final.log = state.log ++ events ∧ .dispatched nE ∈ events := by
  obtain ⟨state, hfirst, hstate⟩ := Option.map_eq_some_iff.mp
    (show (run slotStep ⟨allocatedPool 3, []⟩ [.dispatch 4 (0, 0)]).map (fun state ↦
      (run slotStep state [.dispatch 5 (0, 0), .release 0, .dispatch 6 (0, 0),
        .dispatch 7 (0, 0)]).isSome) = some true by decide +kernel)
  obtain ⟨final, hwindow⟩ := Option.isSome_iff_exists.mp hstate
  obtain ⟨he, hexclusive, hfree⟩ := slotAllocation_of_run (by decide) hfirst hwindow
  exact ⟨state, final, hfirst, hwindow, he, hexclusive, fun nE hnE ↦ hfree nE hnE (by decide)⟩

/-! ### The slot that is returned -/

/-- `get_E` returns without waiting if and only if a slot is free. It returns the first free slot
from `E` on, sets `E` behind it, and leaves the slots as they are. -/
theorem getE_firstFree {pool : PoolT n} (hstart : pool.e < n) :
    ((getE pool).isSome = true ↔ ∃ nE, (pool.arr nE).used = -1) ∧
      ∀ nE pool', getE pool = some (nE, pool') →
        (∃ d, IsLeast {d | (pool.arr (slotAt n pool.e d)).used = -1} d ∧
          (nE : ℕ) = (pool.e + d) % n) ∧
        pool'.e = (nE + 1) % n ∧ ∀ slot, (pool'.arr slot).used = (pool.arr slot).used := by
  constructor
  · rw [isSome_getE_iff hstart]
    simp only [isFree_iff]
  · intro nE pool' hget
    obtain ⟨hscan, rfl⟩ := getE_eq_some hget
    obtain ⟨d, hleast, hslot⟩ := exists_isLeast_of_scan hscan
    simp only [isFree_iff] at hleast
    refine ⟨⟨d, hleast, ?_⟩, rfl, fun slot ↦ rfl⟩
    rw [← hslot, val_slotAt]

/-- Three slots, of which the one at `E` is taken. -/
theorem getE_firstFree_three :
    (getE (dispatchTo (allocatedPool 3) 0 4 (0, 0))).isSome = true ∧
      ∀ nE pool', getE (dispatchTo (allocatedPool 3) 0 4 (0, 0)) = some (nE, pool') →
        pool'.e = (nE + 1) % 3 := by
  obtain ⟨hfound, hspec⟩ :=
    @getE_firstFree 3 _ (dispatchTo (allocatedPool 3) 0 4 (0, 0)) (by decide)
  exact ⟨hfound.mpr ⟨1, rfl⟩, fun nE pool' hget ↦ (hspec nE pool' hget).2.1⟩

end ImageApp.Pools
