import ImageApp.Foundations.GuardedRuns
import ImageApp.Server.ThreadPool

/-!
# Recycling the slot of a worker

A worker closes its connection with `close_client_with_status` while the dispatcher of its pool
looks for a free slot for a new one. The worker publishes its slot as free before it has closed its
socket, so the stores of the two can mix. Every store, the test of `get_E`, the shutdown and the
close are one step each, and the steps of the two threads come in any order.

`recycled_iff` says which orders are safe: the worker closes its own descriptor and the slot ends up
with the new connection exactly when the dispatcher stores `conn_sd` after the worker's close. The
new connection is accepted at some point before the dispatcher looks for a slot, and `accept` does
not return a descriptor that is still open.
-/

set_option autoImplicit false
set_option relaxedAutoImplicit false

namespace ImageApp.Dispatch

open Foundations.GuardedRuns Server

/-! ### The two threads -/

/-- A slot in use, and the connection that comes next. -/
structure Recycling where
  td : ThreadData
  used_eq : td.used = 1
  newSd : Descriptor
  newAddr : SockaddrIn

/-- The next step of the worker in `close_client_with_status`. -/
inductive CloserPc
  | setUsed
  | setTimer
  | setMsgReceived
  | setRequest
  | shutdown
  | close
  | done
  deriving DecidableEq, Repr

/-- The next step for the new connection: it is accepted, and `dispatch_job` assigns it. -/
inductive AssignerPc
  | accept
  | testUsed
  | setConnSd
  | setClientAddr
  | setTimer
  | setRequest
  | setMsgReceived
  | setUsed
  | signal
  | done
  deriving DecidableEq, Repr

/-- The slot between two steps, the descriptor that the worker has closed, and where both threads
are. -/
structure SharedSlot where
  td : ThreadData
  closed : Option Descriptor
  closerPc : CloserPc
  assignerPc : AssignerPc

/-- The thread that takes the next step. -/
inductive SlotThread
  | closer
  | assigner
  deriving DecidableEq, Repr

/-- The slot before the first step. -/
def Recycling.start (recycling : Recycling) : SharedSlot where
  td := recycling.td
  closed := none
  closerPc := .setUsed
  assignerPc := .accept

/-- A step of the worker. -/
def closerStep (slot : SharedSlot) : Option SharedSlot :=
  match slot.closerPc with
  | .setUsed => some { slot with td := { slot.td with used := -1 }, closerPc := .setTimer }
  | .setTimer => some { slot with td := { slot.td with timer := 5 }, closerPc := .setMsgReceived }
  | .setMsgReceived =>
    some { slot with td := { slot.td with msgReceived := 0 }, closerPc := .setRequest }
  | .setRequest => some { slot with td := { slot.td with request := 1000 }, closerPc := .shutdown }
  | .shutdown => some { slot with closerPc := .close }
  | .close => some { slot with closed := some slot.td.connSd, closerPc := .done }
  | .done => none

/-- A step for the new connection. The signal reaches nobody, because the worker is not waiting. -/
def assignerStep (recycling : Recycling) (slot : SharedSlot) : Option SharedSlot :=
  match slot.assignerPc with
  | .accept =>
    if recycling.newSd = recycling.td.connSd ∧ slot.closed ≠ some recycling.td.connSd then none
    else some { slot with assignerPc := .testUsed }
  | .testUsed => if slot.td.used = -1 then some { slot with assignerPc := .setConnSd } else none
  | .setConnSd =>
    some { slot with
      td := { slot.td with connSd := recycling.newSd }, assignerPc := .setClientAddr }
  | .setClientAddr =>
    some { slot with
      td := { slot.td with clientAddr := recycling.newAddr }, assignerPc := .setTimer }
  | .setTimer => some { slot with td := { slot.td with timer := 5 }, assignerPc := .setRequest }
  | .setRequest =>
    some { slot with td := { slot.td with request := 1000 }, assignerPc := .setMsgReceived }
  | .setMsgReceived =>
    some { slot with td := { slot.td with msgReceived := 1 }, assignerPc := .setUsed }
  | .setUsed => some { slot with td := { slot.td with used := 1 }, assignerPc := .signal }
  | .signal => some { slot with assignerPc := .done }
  | .done => none

/-- A step of either thread. -/
def slotStep (recycling : Recycling) (slot : SharedSlot) : SlotThread → Option SharedSlot
  | .closer => closerStep slot
  | .assigner => assignerStep recycling slot

/-- The slot was recycled: the worker has closed its own descriptor, and the slot holds the new
connection and is announced and in use. -/
structure Recycled (recycling : Recycling) (slot : SharedSlot) : Prop where
  closed_eq : slot.closed = some recycling.td.connSd
  connSd_eq : slot.td.connSd = recycling.newSd
  msgReceived_eq : slot.td.msgReceived = 1
  used_eq : slot.td.used = 1

/-- The dispatcher stores `conn_sd` only after the worker's close. -/
def StoresAfterClose (slot : SharedSlot) (thread : SlotThread) : Prop :=
  thread = .assigner → slot.assignerPc = .setConnSd → slot.closerPc = .done

instance decidableStoresAfterClose (slot : SharedSlot) (thread : SlotThread) :
    Decidable (StoresAfterClose slot thread) :=
  inferInstanceAs (Decidable (_ → _ → _))

/-! ### What a step does -/

/-- The dispatcher has stored `conn_sd`. -/
def AssignerPc.assigned : AssignerPc → Bool
  | .accept | .testUsed | .setConnSd => false
  | _ => true

/-- The dispatcher has stored `msg_received`. -/
def AssignerPc.announced : AssignerPc → Bool
  | .setUsed | .signal | .done => true
  | _ => false

/-- The dispatcher has stored `used`. -/
def AssignerPc.published : AssignerPc → Bool
  | .signal | .done => true
  | _ => false

/-- A step of the worker closes the descriptor in the slot, or closes nothing. -/
theorem closerStep_cases {slot slot' : SharedSlot} (hstep : closerStep slot = some slot') :
    slot.closerPc ≠ .done ∧ slot'.assignerPc = slot.assignerPc ∧
      slot'.td.connSd = slot.td.connSd ∧
      ((slot'.closerPc = .done ∧ slot'.closed = some slot.td.connSd) ∨
        (slot'.closerPc ≠ .done ∧ slot'.closed = slot.closed)) := by
  unfold closerStep at hstep
  cases hpc : slot.closerPc with
  | done => simp [hpc] at hstep
  | close =>
    simp only [hpc, Option.some.injEq] at hstep
    subst hstep
    exact ⟨by decide, rfl, rfl, Or.inl ⟨rfl, rfl⟩⟩
  | _ =>
    simp only [hpc, Option.some.injEq] at hstep
    subst hstep
    exact ⟨by decide, rfl, rfl, Or.inr ⟨by simp, rfl⟩⟩

/-- What a step of the dispatcher after the acceptance does to the slot. -/
structure AssignerEffect (recycling : Recycling) (slot slot' : SharedSlot) : Prop where
  connSd_eq : slot'.td.connSd =
    if slot.assignerPc = .setConnSd then recycling.newSd else slot.td.connSd
  assigned_eq : slot'.assignerPc.assigned =
    (slot.assignerPc.assigned || slot.assignerPc = .setConnSd)
  msgReceived_eq : slot'.assignerPc.announced = true →
    (slot.assignerPc.announced = true ∧ slot'.td.msgReceived = slot.td.msgReceived) ∨
      slot'.td.msgReceived = 1
  used_eq : slot'.assignerPc.published = true →
    (slot.assignerPc.published = true ∧ slot'.td.used = slot.td.used) ∨ slot'.td.used = 1
  accepted : slot'.assignerPc ≠ .accept
  fresh : slot.assignerPc = .accept →
    recycling.newSd = recycling.td.connSd → slot.closed = some recycling.td.connSd

/-- A step of the dispatcher changes the slot as `AssignerEffect` says, and nothing of the worker.
-/
theorem assignerStep_cases {recycling : Recycling} {slot slot' : SharedSlot}
    (hstep : assignerStep recycling slot = some slot') :
    slot'.closerPc = slot.closerPc ∧ slot'.closed = slot.closed ∧
      AssignerEffect recycling slot slot' := by
  unfold assignerStep at hstep
  cases hpc : slot.assignerPc with
  | done => simp [hpc] at hstep
  | accept =>
    simp only [hpc, Option.ite_none_left_eq_some, Option.some.injEq] at hstep
    obtain ⟨hfresh, rfl⟩ := hstep
    refine ⟨rfl, rfl, ?_⟩
    constructor <;> simp [hpc, AssignerPc.assigned, AssignerPc.announced, AssignerPc.published]
    intro hsame
    by_contra hopen
    exact hfresh ⟨hsame, hopen⟩
  | testUsed =>
    simp only [hpc, Option.ite_none_right_eq_some, Option.some.injEq] at hstep
    obtain ⟨-, rfl⟩ := hstep
    refine ⟨rfl, rfl, ?_⟩
    constructor <;> simp [hpc, AssignerPc.assigned, AssignerPc.announced, AssignerPc.published]
  | _ =>
    simp only [hpc, Option.some.injEq] at hstep
    subst hstep
    refine ⟨rfl, rfl, ?_⟩
    constructor <;> simp [hpc, AssignerPc.assigned, AssignerPc.announced, AssignerPc.published]

/-! ### Orders with the store after the close -/

/-- Nothing of the new connection is in the slot before the worker has closed its own, and what was
stored is still there. -/
structure Orderly (recycling : Recycling) (slot : SharedSlot) : Prop where
  connSd_eq : slot.td.connSd =
    if slot.assignerPc.assigned = true then recycling.newSd else recycling.td.connSd
  done_of_assigned : slot.assignerPc.assigned = true → slot.closerPc = .done
  closed_eq : slot.closed =
    if slot.closerPc = .done then some recycling.td.connSd else none
  msgReceived_eq : slot.assignerPc.announced = true → slot.td.msgReceived = 1
  used_eq : slot.assignerPc.published = true → slot.td.used = 1
  fresh : slot.assignerPc ≠ .accept → slot.closerPc ≠ .done →
    recycling.newSd ≠ recycling.td.connSd

/-- What was announced or published was assigned before. -/
theorem assigned_of_announced {pc : AssignerPc} (hpc : pc.announced = true ∨ pc.published = true) :
    pc.assigned = true := by
  cases pc <;> simp_all [AssignerPc.assigned, AssignerPc.announced, AssignerPc.published]

/-- A step of the worker keeps the order. -/
theorem orderly_closerStep {recycling : Recycling} {slot slot' : SharedSlot}
    (horderly : Orderly recycling slot) (hstep : closerStep slot = some slot') :
    Orderly recycling slot' := by
  obtain ⟨hrunning, hpc, hconn, hclose⟩ := closerStep_cases hstep
  have hassigned : slot.assignerPc.assigned = false :=
    Bool.eq_false_iff.mpr fun hassigned ↦ hrunning (horderly.done_of_assigned hassigned)
  have hnot : ∀ {property : Prop},
      slot.assignerPc.announced = true ∨ slot.assignerPc.published = true → property := by
    intro property h
    rw [assigned_of_announced h] at hassigned
    exact absurd hassigned (by decide)
  have hown : slot.td.connSd = recycling.td.connSd := by
    rw [horderly.connSd_eq, hassigned]
    rfl
  constructor
  · rw [hpc, hconn, horderly.connSd_eq]
  · rw [hpc, hassigned]
    exact fun h ↦ absurd h (by decide)
  · rcases hclose with ⟨hdone, hclosed⟩ | ⟨hrunning', hclosed⟩
    · rw [hclosed, if_pos hdone, hown]
    · rw [hclosed, if_neg hrunning', horderly.closed_eq, if_neg hrunning]
  · rw [hpc]
    exact fun h ↦ hnot (Or.inl h)
  · rw [hpc]
    exact fun h ↦ hnot (Or.inr h)
  · rw [hpc]
    exact fun haccepted _ ↦ horderly.fresh haccepted hrunning

/-- A step of the dispatcher that does not store `conn_sd` too early keeps the order. -/
theorem orderly_assignerStep {recycling : Recycling} {slot slot' : SharedSlot}
    (horderly : Orderly recycling slot) (hguard : StoresAfterClose slot .assigner)
    (hstep : assignerStep recycling slot = some slot') : Orderly recycling slot' := by
  obtain ⟨hpc, hclosed, heffect⟩ := assignerStep_cases hstep
  constructor
  · rw [heffect.connSd_eq, heffect.assigned_eq, horderly.connSd_eq]
    by_cases hstore : slot.assignerPc = .setConnSd
    · simp [hstore]
    · simp [hstore]
  · rw [hpc, heffect.assigned_eq, Bool.or_eq_true, decide_eq_true_eq]
    rintro (hassigned | hstore)
    · exact horderly.done_of_assigned hassigned
    · exact hguard rfl hstore
  · rw [hpc, hclosed, horderly.closed_eq]
  · intro hannounced
    rcases heffect.msgReceived_eq hannounced with ⟨hbefore, heq⟩ | heq
    · rw [heq, horderly.msgReceived_eq hbefore]
    · exact heq
  · intro hpublished
    rcases heffect.used_eq hpublished with ⟨hbefore, heq⟩ | heq
    · rw [heq, horderly.used_eq hbefore]
    · exact heq
  · intro _ hrunning
    rw [hpc] at hrunning
    by_cases haccept : slot.assignerPc = .accept
    · intro hsame
      have hold := heffect.fresh haccept hsame
      rw [horderly.closed_eq, if_neg hrunning] at hold
      exact absurd hold (by simp)
    · exact horderly.fresh haccept hrunning

/-- The start is orderly. -/
theorem orderly_start (recycling : Recycling) : Orderly recycling recycling.start where
  connSd_eq := rfl
  done_of_assigned := fun h ↦ absurd h Bool.false_ne_true
  closed_eq := rfl
  msgReceived_eq := fun h ↦ absurd h Bool.false_ne_true
  used_eq := fun h ↦ absurd h Bool.false_ne_true
  fresh := fun h ↦ absurd rfl h

/-- Every step that does not store `conn_sd` too early keeps the order. -/
theorem orderly_step (recycling : Recycling) (slot : SharedSlot) (thread : SlotThread)
    (slot' : SharedSlot) (horderly : Orderly recycling slot)
    (hguard : StoresAfterClose slot thread) (hstep : slotStep recycling slot thread = some slot') :
    Orderly recycling slot' := by
  cases thread with
  | closer => exact orderly_closerStep horderly hstep
  | assigner => exact orderly_assignerStep horderly hguard hstep

/-! ### Orders with the store before the close -/

/-- The new descriptor is in the slot while the worker has not closed its own, or the worker has
closed the new one. -/
structure Misdirected (recycling : Recycling) (slot : SharedSlot) : Prop where
  newSd_ne : recycling.newSd ≠ recycling.td.connSd
  connSd_eq : slot.td.connSd = recycling.newSd
  closed_cases : slot.closed = none ∨ slot.closed = some recycling.newSd
  assigned : slot.assignerPc.assigned = true

/-- A misdirected close cannot be undone. -/
theorem misdirected_step (recycling : Recycling) (slot : SharedSlot) (thread : SlotThread)
    (slot' : SharedSlot) (hmisdirected : Misdirected recycling slot)
    (hstep : slotStep recycling slot thread = some slot') : Misdirected recycling slot' := by
  cases thread with
  | closer =>
    obtain ⟨-, hpc, hconn, hclose⟩ := closerStep_cases hstep
    refine ⟨hmisdirected.newSd_ne, hconn.trans hmisdirected.connSd_eq, ?_, ?_⟩
    · rcases hclose with ⟨-, hclosed⟩ | ⟨-, hclosed⟩
      · exact Or.inr (hclosed.trans (congrArg some hmisdirected.connSd_eq))
      · rw [hclosed]
        exact hmisdirected.closed_cases
    · rw [hpc]
      exact hmisdirected.assigned
  | assigner =>
    obtain ⟨-, hclosed, heffect⟩ := assignerStep_cases hstep
    refine ⟨hmisdirected.newSd_ne, ?_, ?_, ?_⟩
    · rw [heffect.connSd_eq, hmisdirected.connSd_eq, ite_self]
    · rw [hclosed]
      exact hmisdirected.closed_cases
    · rw [heffect.assigned_eq, hmisdirected.assigned, Bool.true_or]

/-- A slot whose close is misdirected was not recycled. -/
theorem not_recycled_of_misdirected {recycling : Recycling} {slot : SharedSlot}
    (hmisdirected : Misdirected recycling slot) : ¬ Recycled recycling slot := by
  intro hrecycled
  have hclosed := hrecycled.closed_eq
  rcases hmisdirected.closed_cases with hnone | hnew
  · rw [hnone] at hclosed
    exact absurd hclosed (by simp)
  · rw [hnew, Option.some.injEq] at hclosed
    exact hmisdirected.newSd_ne hclosed

/-! ### The exact condition -/

/-- Once both threads are done, the slot was recycled exactly when the dispatcher has stored
`conn_sd` after the worker's close. -/
theorem recycled_iff {recycling : Recycling} {schedule : List SlotThread} {slot : SharedSlot}
    (hrun : run (slotStep recycling) recycling.start schedule = some slot)
    (hcloser : slot.closerPc = .done) (hassigner : slot.assignerPc = .done) :
    Recycled recycling slot ↔
      Guarded (slotStep recycling) StoresAfterClose recycling.start schedule := by
  constructor
  · intro hrecycled
    by_contra hunguarded
    obtain ⟨first, thread, rest, before, after, -, hguarded, hbefore, hagainst, hafter, hrest⟩ :=
      exists_of_not_guarded hunguarded hrun
    have horderly : Orderly recycling before :=
      invariant_of_guarded (orderly_step recycling) (orderly_start recycling) hguarded hbefore
    -- The step against the guard stores the new descriptor before the worker has closed its own.
    simp only [StoresAfterClose, Classical.not_imp] at hagainst
    obtain ⟨rfl, hstore, hrunning⟩ := hagainst
    obtain ⟨-, hclosed, heffect⟩ := assignerStep_cases hafter
    have hmisdirected : Misdirected recycling after := by
      refine ⟨horderly.fresh (by simp [hstore]) hrunning, ?_, Or.inl ?_, ?_⟩
      · rw [heffect.connSd_eq, if_pos hstore]
      · rw [hclosed, horderly.closed_eq, if_neg hrunning]
      · rw [heffect.assigned_eq, hstore]
        rfl
    exact not_recycled_of_misdirected
      (invariant_of_run (misdirected_step recycling) hmisdirected hrest) hrecycled
  · intro hguarded
    have horderly : Orderly recycling slot :=
      invariant_of_guarded (orderly_step recycling) (orderly_start recycling) hguarded hrun
    refine ⟨?_, ?_, horderly.msgReceived_eq (by rw [hassigner]; rfl),
      horderly.used_eq (by rw [hassigner]; rfl)⟩
    · rw [horderly.closed_eq, if_pos hcloser]
    · rw [horderly.connSd_eq, hassigner]
      rfl

/-- A worker serves descriptor 4, and the next connection has descriptor 5. -/
def nextClient : Recycling where
  td := assignConnection allocatedThread 4 (0, 0)
  used_eq := rfl
  newSd := 5
  newAddr := (0, 0)

/-- All steps of the worker, then all steps of the dispatcher. -/
def closedFirst : List SlotThread :=
  List.replicate 6 .closer ++ List.replicate 9 .assigner

/-- One after the other, the two threads do what `close_client_with_status` and the stores of
`dispatch_job` do to the slot. -/
theorem run_closedFirst (recycling : Recycling) :
    run (slotStep recycling) recycling.start closedFirst =
      some
        { td := assignConnection (closeClientWithStatus recycling.td .connectionClosed).1
            recycling.newSd recycling.newAddr
          closed := some recycling.td.connSd
          closerPc := .done
          assignerPc := .done } := by
  simp [closedFirst, List.replicate, run_cons, slotStep, closerStep, assignerStep, Recycling.start,
    assignConnection, closeClientWithStatus]

/-- The dispatcher comes in between the worker's store of `used` and its other steps. -/
def assignedFirst : List SlotThread :=
  .closer :: List.replicate 9 .assigner ++ List.replicate 5 .closer

theorem recycled_closedFirst :
    ∃ slot, run (slotStep nextClient) nextClient.start closedFirst = some slot ∧
      (Recycled nextClient slot ↔
        Guarded (slotStep nextClient) StoresAfterClose nextClient.start closedFirst) := by
  have hdone : (run (slotStep nextClient) nextClient.start closedFirst).map
      (fun slot ↦ (slot.closerPc, slot.assignerPc)) = some (.done, .done) := by decide +kernel
  obtain ⟨slot, hrun, hpcs⟩ := Option.map_eq_some_iff.mp hdone
  rw [Prod.mk.injEq] at hpcs
  exact ⟨slot, hrun, recycled_iff hrun hpcs.1 hpcs.2⟩

/-- A worker that is overtaken closes the descriptor of the next client. -/
theorem not_recycled :
    ¬ ∀ (recycling : Recycling) (schedule : List SlotThread) (slot : SharedSlot),
      run (slotStep recycling) recycling.start schedule = some slot →
        slot.closerPc = .done → slot.assignerPc = .done → Recycled recycling slot := by
  intro hrecycled
  have hdone : (run (slotStep nextClient) nextClient.start assignedFirst).map
      (fun slot ↦ (slot.closerPc, slot.assignerPc, slot.closed)) =
        some (.done, .done, some 5) := by decide +kernel
  obtain ⟨slot, hrun, hpcs⟩ := Option.map_eq_some_iff.mp hdone
  rw [Prod.mk.injEq, Prod.mk.injEq] at hpcs
  have hclosed := (hrecycled nextClient _ slot hrun hpcs.1 hpcs.2.1).closed_eq
  rw [hpcs.2.2] at hclosed
  exact absurd hclosed (by decide)

end ImageApp.Dispatch
