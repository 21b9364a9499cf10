import ImageApp.Dispatch.Serving

/-!
# No connection is slept on

The test of `wait_for_connection` is made under the mutex under which the dispatcher signals, and
the dispatcher sets `msg_received` before it takes that mutex. So a worker can find the flag unset
and go to sleep only before the signal: `wakes_of_run` says, for every interleaving of the
dispatcher and the workers of a pool, that a worker that sleeps while its flag is set is woken by
the next three steps of the dispatcher, whatever the other workers do in between.

This needs no condition on the interleaving. What can go wrong is that a worker is woken, or goes
on, without a connection of its own.
-/

set_option autoImplicit false
set_option relaxedAutoImplicit false

namespace ImageApp.Dispatch

open Foundations.GuardedRuns Server

/-! ### The way to the signal -/

/-- The steps of the dispatcher between a stage after the store of `msg_received` and the signal. -/
def Stage.beforeSignal : Stage → Option ℕ
  | .setUsed => some 2
  | .lock => some 1
  | .signal => some 0
  | _ => none

section Runs

variable {ι : Type*} [DecidableEq ι]

/-- A worker that sleeps while its flag is set is on the dispatcher's way to a signal. -/
def SignalComes (pool : Pool ι) (i : ι) : Prop :=
  (pool.slots i).pc = .waiting → (pool.slots i).td.msgReceived = 1 →
    ((pool.stageAt i).bind Stage.beforeSignal).isSome

/-- The worker sleeps while its flag is set. -/
structure SleepsOn (pool : Pool ι) (i : ι) : Prop where
  pc_eq : (pool.slots i).pc = .waiting
  msgReceived_eq : (pool.slots i).td.msgReceived = 1
  signalComes : SignalComes pool i

/-- The steps of the dispatcher before the worker is signalled. -/
def stepsToSignal (pool : Pool ι) (i : ι) : ℕ :=
  ((pool.stageAt i).bind Stage.beforeSignal).getD 0

/-- The action is a step of the dispatcher in its assignment. -/
def PoolAction.isAssign : PoolAction ι → Bool
  | .assign => true
  | .find .. | .work .. => false

variable {pool pool' : Pool ι} {i : ι}

/-- What a step of the dispatcher in its assignment does. -/
theorem assign_cases (hstep : poolStep pool .assign = some pool') :
    ∃ slot stage connSd clientAddr,
      pool.dispatcher = .assigning slot stage connSd clientAddr ∧
      pool'.slots = Function.update pool.slots slot
        ((pool.slots slot).store connSd clientAddr stage) ∧
      ∀ i, pool'.stageAt i = if slot = i then stage.next else none := by
  cases hpool : pool.dispatcher with
  | searching => simp [poolStep, hpool] at hstep
  | assigning slot stage connSd clientAddr =>
    simp only [poolStep, hpool, Option.some.injEq] at hstep
    subst hstep
    refine ⟨slot, stage, connSd, clientAddr, rfl, rfl, fun i ↦ ?_⟩
    cases hnext : stage.next <;> simp [Pool.stageAt]

/-- A worker that sleeps takes no step. -/
theorem work_eq_none_of_waiting {slot : Slot} (hwaiting : slot.pc = .waiting) (held : Bool)
    (action : WorkerAction) : slot.work held action = none := by
  cases action <;> simp [Slot.work, hwaiting]

/-- A worker goes to sleep only when it finds the flag unset. -/
theorem msgReceived_ne_of_work {slot slot' : Slot} {held : Bool} {action : WorkerAction}
    (hstep : slot.work held action = some slot') (hwaiting : slot'.pc = .waiting) :
    slot'.td.msgReceived ≠ 1 := by
  cases worked_of_work hstep with
  | missed _ hflag => exact hflag
  | found | woken | received | kept | closed => simp at hwaiting

/-- The stores of the dispatcher bring its signal nearer. -/
theorem signalComes_store {slot : Slot} {stage : Stage} (connSd : Descriptor)
    (clientAddr : SockaddrIn)
    (hcomes : slot.pc = .waiting → slot.td.msgReceived = 1 → stage.beforeSignal.isSome)
    (hwaiting : (slot.store connSd clientAddr stage).pc = .waiting)
    (hflag : (slot.store connSd clientAddr stage).td.msgReceived = 1) :
    (stage.next.bind Stage.beforeSignal).isSome := by
  cases stage with
  | setMsgReceived | setUsed | lock => rfl
  | signal =>
    -- The worker is woken, or it was not asleep.
    unfold Slot.store at hwaiting
    split_ifs at hwaiting with hasleep
    exact absurd hwaiting hasleep
  | setConnSd | setClientAddr | setTimer | setRequest | unlock =>
    exact absurd (hcomes hwaiting hflag) (by decide)

/-- No step leaves a worker asleep with its flag set and no signal on its way. -/
theorem signalComes_step (i : ι) (pool : Pool ι) (action : PoolAction ι) (pool' : Pool ι)
    (hcomes : SignalComes pool i) (hstep : poolStep pool action = some pool') :
    SignalComes pool' i := by
  cases action with
  | find slot connSd clientAddr =>
    cases hpool : pool.dispatcher with
    | assigning => simp [poolStep, hpool] at hstep
    | searching =>
      simp only [poolStep, hpool, Option.ite_none_right_eq_some, Option.some.injEq] at hstep
      obtain ⟨-, rfl⟩ := hstep
      intro hwaiting hflag
      have hsignal := hcomes hwaiting hflag
      rw [stageAt_of_searching hpool] at hsignal
      exact absurd hsignal (by decide)
  | assign =>
    obtain ⟨slot, stage, connSd, clientAddr, hpool, hslots, hstage⟩ := assign_cases hstep
    have hbefore := stageAt_of_assigning hpool i
    intro hwaiting hflag
    rw [hslots] at hwaiting hflag
    rw [hstage]
    by_cases hslot : slot = i
    · subst hslot
      rw [if_pos rfl] at hbefore ⊢
      rw [Function.update_self] at hwaiting hflag
      apply signalComes_store connSd clientAddr _ hwaiting hflag
      intro hwaiting hflag
      have hsignal := hcomes hwaiting hflag
      rwa [hbefore, Option.bind_some] at hsignal
    · rw [Function.update_of_ne (Ne.symm hslot)] at hwaiting hflag
      have hsignal := hcomes hwaiting hflag
      rw [hbefore, if_neg hslot] at hsignal
      exact absurd hsignal (by decide)
  | work slot action =>
    obtain ⟨after, hwork, rfl⟩ := Option.map_eq_some_iff.mp hstep
    intro hwaiting hflag
    by_cases hslot : slot = i
    · subst hslot
      simp only [Function.update_self] at hwaiting hflag
      exact absurd hflag (msgReceived_ne_of_work hwork hwaiting)
    · simp only [Function.update_of_ne (Ne.symm hslot)] at hwaiting hflag
      exact hcomes hwaiting hflag

/-- A worker that sleeps while its flag is set is woken, or sleeps on with the signal no further
away. -/
theorem sleepsOn_step (i : ι) (pool : Pool ι) (action : PoolAction ι) (pool' : Pool ι)
    (hsleeps : SleepsOn pool i) (hstep : poolStep pool action = some pool') :
    (pool'.slots i).pc = .woken ∨
      SleepsOn pool' i ∧
        stepsToSignal pool' i + (if action.isAssign then 1 else 0) ≤ stepsToSignal pool i := by
  have hcomes := signalComes_step i pool action pool' hsleeps.signalComes hstep
  have hsignal := hsleeps.signalComes hsleeps.pc_eq hsleeps.msgReceived_eq
  cases action with
  | find slot connSd clientAddr =>
    cases hpool : pool.dispatcher with
    | assigning => simp [poolStep, hpool] at hstep
    | searching =>
      rw [stageAt_of_searching hpool] at hsignal
      exact absurd hsignal (by decide)
  | assign =>
    obtain ⟨slot, stage, connSd, clientAddr, hpool, hslots, hstage⟩ := assign_cases hstep
    have hbefore := stageAt_of_assigning hpool i
    by_cases hslot : slot = i
    · subst hslot
      have hafter := hstage slot
      have hself : pool'.slots slot = (pool.slots slot).store connSd clientAddr stage := by
        rw [hslots, Function.update_self]
      rw [if_pos rfl] at hbefore hafter
      rw [hbefore, Option.bind_some] at hsignal
      cases stage with
      | signal =>
        rw [hself, Slot.store, if_pos hsleeps.pc_eq]
        exact Or.inl rfl
      | setUsed | lock =>
        refine Or.inr ⟨⟨?_, ?_, hcomes⟩, ?_⟩
        · rw [hself]
          exact hsleeps.pc_eq
        · rw [hself]
          exact hsleeps.msgReceived_eq
        · rw [stepsToSignal, stepsToSignal, hbefore, hafter]
          exact le_rfl
      | setConnSd | setClientAddr | setTimer | setRequest | setMsgReceived | unlock =>
        exact absurd hsignal (by decide)
    · rw [hbefore, if_neg hslot] at hsignal
      exact absurd hsignal (by decide)
  | work slot action =>
    obtain ⟨after, hwork, rfl⟩ := Option.map_eq_some_iff.mp hstep
    have hslot : slot ≠ i := by
      rintro rfl
      rw [work_eq_none_of_waiting hsleeps.pc_eq] at hwork
      simp at hwork
    have hself : Function.update pool.slots slot after i = pool.slots i :=
      Function.update_of_ne (Ne.symm hslot) ..
    refine Or.inr ⟨⟨?_, ?_, hcomes⟩, le_rfl⟩
    · rw [← hsleeps.pc_eq]
      exact congrArg Slot.pc hself
    · rw [← hsleeps.msgReceived_eq]
      exact congrArg (fun slot ↦ slot.td.msgReceived) hself

/-- In every interleaving, a worker that sleeps while its flag is set is woken before the dispatcher
has taken three more steps of its assignment, whatever the other threads do. -/
theorem wakes_of_run {actions rest : List (PoolAction ι)} {final : Pool ι}
    (hrun : run poolStep startPool actions = some pool) (hwaiting : (pool.slots i).pc = .waiting)
    (hflag : (pool.slots i).td.msgReceived = 1) (hrest : run poolStep pool rest = some final)
    (hcount : 3 ≤ rest.countP PoolAction.isAssign) :
    ∃ first later middle, rest = first ++ later ∧ run poolStep pool first = some middle ∧
      (middle.slots i).pc = .woken := by
  have hcomes : SignalComes pool i := by
    refine @invariant_of_run _ _ _ (SignalComes · i) (signalComes_step i) _ _ _ ?_ hrun
    intro hasleep
    simp [startPool, startSlot] at hasleep
  have hsteps : stepsToSignal pool i ≤ 2 := by
    rw [stepsToSignal]
    cases pool.stageAt i with
    | none => decide
    | some stage => cases stage <;> decide
  exact @exists_reached_of_rank _ _ _ (SleepsOn · i) (fun pool ↦ (pool.slots i).pc = .woken)
    (stepsToSignal · i) _ (sleepsOn_step i) _ _ _ ⟨hwaiting, hflag, hcomes⟩ hrest (by omega)

end Runs

/-- The worker of the first slot is asleep when the flag of its connection is set. -/
theorem wakes_sleeper :
    ∃ pool : Pool Bool, run poolStep startPool (works [.test] ++ stores 4) = some pool ∧
      ∃ first later middle, List.replicate 3 PoolAction.assign = first ++ later ∧
        run poolStep pool first = some middle ∧ (middle.slots false).pc = .woken := by
  have hbefore : (run poolStep startPool (works [.test] ++ stores 4)).map (fun pool ↦
      ((pool.slots false).pc, (pool.slots false).td.msgReceived,
        (run poolStep pool (List.replicate 3 .assign)).isSome)) = some (.waiting, 1, true) := by
    decide +kernel
  obtain ⟨pool, hrun, heq⟩ := Option.map_eq_some_iff.mp hbefore
  rw [Prod.mk.injEq, Prod.mk.injEq] at heq
  obtain ⟨final, hrest⟩ := Option.isSome_iff_exists.mp heq.2.2
  exact ⟨pool, hrun, wakes_of_run hrun heq.1 heq.2.1 hrest (by decide)⟩

end ImageApp.Dispatch
