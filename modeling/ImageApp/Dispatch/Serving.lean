import ImageApp.Foundations.GuardedRuns
import ImageApp.Server.HandleClient

/-!
# Serving what was assigned

The dispatcher of a pool and the workers of its slots. The dispatcher assigns a connection to a free
slot with the stores of `dispatch_job`, and then signals the condition variable of the slot. A
worker returns from `wait_for_connection` when it finds `msg_received` set or is woken by the
signal, serves the requests of the connection, and closes it with `close_client_with_status`. Every
store, the lock, the signal, the unlock, the locked test, the return from the wait, the serving of a
request and the close are one step each, and the steps come in any order. There are no spurious
wake-ups.

`servesAssigned_of_guarded` is about every run in which no worker tests `msg_received` between the
stores of `msg_received` and `used`, and no signal reaches a worker that has used up the flag it
stands for: a worker that goes on to receive has a slot in use and a connection of its own, and the
dispatches, sessions and closes of a slot alternate. `step_of_iterate` connects the steps of a
worker with the loop of `handle_client`.
-/

set_option autoImplicit false
set_option relaxedAutoImplicit false

namespace ImageApp.Dispatch

open Foundations.GuardedRuns Server

/-! ### The threads of a pool -/

/-- Where a worker is: at the test of `wait_for_connection`, in the wait, woken and about to lock
the mutex again, about to call `receive_request`, or serving a request. -/
inductive WorkerPc
  | testing
  | waiting
  | woken
  | ready
  | serving
  deriving DecidableEq, Repr

/-- A slot with its worker. The counters say how many connections were stored in it, how many the
worker has begun to serve, and how many it has closed. -/
structure Slot where
  td : ThreadData
  pc : WorkerPc
  inSession : Bool
  dispatches : ℕ
  sessions : ℕ
  closes : ℕ

/-- The next step of the dispatcher for the slot it has found. -/
inductive Stage
  | setConnSd
  | setClientAddr
  | setTimer
  | setRequest
  | setMsgReceived
  | setUsed
  | lock
  | signal
  | unlock
  deriving DecidableEq, Repr

/-- The stage that comes next. -/
def Stage.next : Stage → Option Stage
  | .setConnSd => some .setClientAddr
  | .setClientAddr => some .setTimer
  | .setTimer => some .setRequest
  | .setRequest => some .setMsgReceived
  | .setMsgReceived => some .setUsed
  | .setUsed => some .lock
  | .lock => some .signal
  | .signal => some .unlock
  | .unlock => none

/-- The dispatcher looks for a free slot, or is at a stage of the assignment of a connection. -/
inductive DispatcherPc (ι : Type*)
  | searching
  | assigning (slot : ι) (stage : Stage) (connSd : Descriptor) (clientAddr : SockaddrIn)

/-- The slots of a pool and its dispatcher. -/
structure Pool (ι : Type*) where
  slots : ι → Slot
  dispatcher : DispatcherPc ι

/-- A step of a worker. `message` is what serving the request has left in the slot's messages. -/
inductive WorkerAction
  | test
  | wake
  | receive
  | keepAlive (message : Fin 5 → List Foundations.CStrings.Byte) (polls : List ℤ)
  | close (message : Fin 5 → List Foundations.CStrings.Byte)

/-- A step of the pool. -/
inductive PoolAction (ι : Type*)
  | find (slot : ι) (connSd : Descriptor) (clientAddr : SockaddrIn)
  | assign
  | work (slot : ι) (action : WorkerAction)

/-- What a stage of the dispatcher does to the slot. The signal reaches the worker only when it
waits. -/
def Slot.store (slot : Slot) (connSd : Descriptor) (clientAddr : SockaddrIn) : Stage → Slot
  | .setConnSd =>
    { slot with td := { slot.td with connSd := connSd }, dispatches := slot.dispatches + 1 }
  | .setClientAddr => { slot with td := { slot.td with clientAddr := clientAddr } }
  | .setTimer => { slot with td := { slot.td with timer := 5 } }
  | .setRequest => { slot with td := { slot.td with request := 1000 } }
  | .setMsgReceived => { slot with td := { slot.td with msgReceived := 1 } }
  | .setUsed => { slot with td := { slot.td with used := 1 } }
  | .lock => slot
  | .signal => if slot.pc = .waiting then { slot with pc := .woken } else slot
  | .unlock => slot

/-- A step of the worker of a slot. `held` says that the dispatcher holds the slot's mutex. -/
def Slot.work (slot : Slot) (held : Bool) : WorkerAction → Option Slot
  | .test =>
    if slot.pc = .testing ∧ held = false then
      some { slot with pc := if slot.td.msgReceived = 1 then .ready else .waiting }
    else none
  | .wake => if slot.pc = .woken ∧ held = false then some { slot with pc := .ready } else none
  | .receive =>
    if slot.pc = .ready then
      some { slot with
        pc := .serving
        inSession := true
        sessions := if slot.inSession then slot.sessions else slot.sessions + 1 }
    else none
  | .keepAlive message polls =>
    if slot.pc = .serving then
      match handleTimer { slot.td with message := message, msgReceived := 0 } polls with
      | some (td, timer, _) =>
        if timer = 0 then none else some { slot with td := td, pc := .testing }
      | none => none
    else none
  | .close message =>
    if slot.pc = .serving then
      some { slot with
        td := (closeClientWithStatus { slot.td with message := message } .connectionClosed).1
        pc := .testing
        inSession := false
        closes := slot.closes + 1 }
    else none

/-- The stores of the dispatcher, one after the other, assign the connection to the slot. -/
theorem td_foldl_store (slot : Slot) (connSd : Descriptor) (clientAddr : SockaddrIn) :
    ([.setConnSd, .setClientAddr, .setTimer, .setRequest, .setMsgReceived, .setUsed].foldl
      (fun slot stage ↦ slot.store connSd clientAddr stage) slot).td =
        assignConnection slot.td connSd clientAddr :=
  rfl

section Pool

variable {ι : Type*} [DecidableEq ι]

/-- The stage of the dispatcher if it is at the given slot. -/
def Pool.stageAt (pool : Pool ι) (i : ι) : Option Stage :=
  match pool.dispatcher with
  | .searching => none
  | .assigning slot stage _ _ => if slot = i then some stage else none

/-- The dispatcher holds the mutex of its slot after the lock, until the unlock. -/
def holdsMutex (stage : Option Stage) : Bool :=
  stage = some .signal ∨ stage = some .unlock

/-- A step of the pool. `get_E` may return any free slot. -/
def poolStep (pool : Pool ι) : PoolAction ι → Option (Pool ι)
  | .find slot connSd clientAddr =>
    match pool.dispatcher with
    | .searching =>
      if (pool.slots slot).td.used = -1 then
        some { pool with dispatcher := .assigning slot .setConnSd connSd clientAddr }
      else none
    | .assigning .. => none
  | .assign =>
    match pool.dispatcher with
    | .searching => none
    | .assigning slot stage connSd clientAddr =>
      some
        { slots := Function.update pool.slots slot
            ((pool.slots slot).store connSd clientAddr stage)
          dispatcher :=
            match stage.next with
            | some stage => .assigning slot stage connSd clientAddr
            | none => .searching }
  | .work slot action =>
    ((pool.slots slot).work (holdsMutex (pool.stageAt slot)) action).map fun after ↦
      { pool with slots := Function.update pool.slots slot after }

/-- The workers before their first test. -/
def startSlot : Slot where
  td := allocatedThread
  pc := .testing
  inSession := false
  dispatches := 0
  sessions := 0
  closes := 0

/-- A pool at the start of the program. -/
def startPool : Pool ι where
  slots := fun _ ↦ startSlot
  dispatcher := .searching

/-- The worker of the slot serves what was assigned to it. -/
structure ServesAssigned (pool : Pool ι) (i : ι) : Prop where
  used_eq : (pool.slots i).pc = .ready → (pool.slots i).td.used = 1
  closes_lt : (pool.slots i).pc = .ready → (pool.slots i).closes < (pool.slots i).dispatches
  closes_le : (pool.slots i).closes ≤ (pool.slots i).sessions
  sessions_le : (pool.slots i).sessions ≤ (pool.slots i).dispatches
  dispatches_le : (pool.slots i).dispatches ≤ (pool.slots i).closes + 1
  settled : pool.stageAt i = none → (pool.slots i).pc = .waiting →
    (pool.slots i).closes = (pool.slots i).dispatches

/-- The slot that the dispatcher is about to signal. -/
def DispatcherPc.signalling : DispatcherPc ι → Option ι
  | .assigning slot .signal _ _ => some slot
  | _ => none

/-- No worker tests `msg_received` between the stores of `msg_received` and `used`, and the signal
does not find a worker waiting that has used up the flag. -/
def FlagAndSignalMatch (pool : Pool ι) : PoolAction ι → Prop
  | .work slot .test => pool.stageAt slot ≠ some .setUsed
  | .assign => ∀ slot ∈ pool.dispatcher.signalling,
    (pool.slots slot).pc = .waiting → (pool.slots slot).td.msgReceived = 1
  | _ => True

instance decidableFlagAndSignalMatch (pool : Pool ι) :
    ∀ action, Decidable (FlagAndSignalMatch pool action)
  | .work slot .test => inferInstanceAs (Decidable (pool.stageAt slot ≠ some .setUsed))
  | .assign => inferInstanceAs (Decidable (∀ slot ∈ pool.dispatcher.signalling, _ → _))
  | .find .. | .work _ .wake | .work _ .receive | .work _ (.keepAlive ..) | .work _ (.close _) =>
    isTrue trivial

end Pool

/-! ### The life of a slot -/

/-- The dispatcher is between the store of `conn_sd` and the store of `used`. -/
def storing (stage : Option Stage) : Bool :=
  match stage with
  | some .setClientAddr | some .setTimer | some .setRequest | some .setMsgReceived
  | some .setUsed => true
  | _ => false

/-- The dispatcher has stored everything and has not yet left the slot. -/
def announcing (stage : Option Stage) : Bool :=
  match stage with
  | some .lock | some .signal | some .unlock => true
  | _ => false

/-- The slot holds no connection. -/
structure Idle (slot : Slot) (stage : Option Stage) : Prop where
  used_eq : slot.td.used = -1
  msgReceived_eq : slot.td.msgReceived = 0
  inSession_eq : slot.inSession = false
  dispatches_eq : slot.dispatches = slot.closes
  sessions_eq : slot.sessions = slot.closes
  pc_mem : slot.pc = .testing ∨ slot.pc = .waiting
  stage_eq : storing stage = false

/-- A connection is being stored in the slot. -/
structure Storing (slot : Slot) (stage : Option Stage) : Prop where
  used_eq : slot.td.used = -1
  msgReceived_eq : slot.td.msgReceived = if stage = some .setUsed then 1 else 0
  inSession_eq : slot.inSession = false
  dispatches_eq : slot.dispatches = slot.closes + 1
  sessions_eq : slot.sessions = slot.closes
  pc_mem : slot.pc = .testing ∨ slot.pc = .waiting
  stage_eq : storing stage = true

/-- The slot holds a connection that its worker has not begun to serve. A worker that waits for it
is still to be signalled. -/
structure Announced (slot : Slot) (stage : Option Stage) : Prop where
  used_eq : slot.td.used = 1
  msgReceived_eq : slot.td.msgReceived = 1
  inSession_eq : slot.inSession = false
  dispatches_eq : slot.dispatches = slot.closes + 1
  sessions_eq : slot.sessions = slot.closes
  pc_ne : slot.pc ≠ .serving
  stage_of_waiting : slot.pc = .waiting → stage = some .lock ∨ stage = some .signal
  stage_eq : stage = none ∨ announcing stage = true

/-- The worker serves the connection in the slot. -/
structure Served (slot : Slot) (stage : Option Stage) : Prop where
  used_eq : slot.td.used = 1
  inSession_eq : slot.inSession = true
  dispatches_eq : slot.dispatches = slot.closes + 1
  sessions_eq : slot.sessions = slot.closes + 1
  pc_mem : slot.pc = .testing ∧ slot.td.msgReceived = 1 ∨ slot.pc = .ready ∨ slot.pc = .serving
  stage_eq : stage = none ∨ announcing stage = true

/-- Where a slot is in its life. -/
inductive Phase (slot : Slot) (stage : Option Stage) : Prop
  | idle (hidle : Idle slot stage)
  | storing (hstoring : Storing slot stage)
  | announced (hannounced : Announced slot stage)
  | served (hserved : Served slot stage)

/-- A dispatcher that announces does not store. -/
theorem storing_of_announcing {stage : Option Stage}
    (hstage : stage = none ∨ announcing stage = true) : storing stage = false := by
  rcases hstage with rfl | hannouncing
  · rfl
  · cases stage with
    | none => rfl
    | some stage => cases stage <;> first | rfl | exact absurd hannouncing Bool.false_ne_true

/-! ### What a worker does to its slot -/

section Work

variable {slot slot' : Slot} {stage : Option Stage} {held : Bool} {action : WorkerAction}

/-- What a step of a worker does, for each of its places. -/
inductive Worked (slot : Slot) : WorkerAction → Slot → Prop
  | found (htesting : slot.pc = .testing) (hflag : slot.td.msgReceived = 1) :
    Worked slot .test { slot with pc := .ready }
  | missed (htesting : slot.pc = .testing) (hflag : slot.td.msgReceived ≠ 1) :
    Worked slot .test { slot with pc := .waiting }
  | woken (hwoken : slot.pc = .woken) : Worked slot .wake { slot with pc := .ready }
  | received (hready : slot.pc = .ready) :
    Worked slot .receive
      { slot with
        pc := .serving
        inSession := true
        sessions := if slot.inSession then slot.sessions else slot.sessions + 1 }
  | kept {message : Fin 5 → List Foundations.CStrings.Byte} {polls : List ℤ} {td : ThreadData}
    (hserving : slot.pc = .serving) (hused : td.used = slot.td.used)
    (hflag : td.msgReceived = 1) :
    Worked slot (.keepAlive message polls) { slot with td := td, pc := .testing }
  | closed {message : Fin 5 → List Foundations.CStrings.Byte} (hserving : slot.pc = .serving) :
    Worked slot (.close message)
      { slot with
        td := (closeClientWithStatus { slot.td with message := message } .connectionClosed).1
        pc := .testing
        inSession := false
        closes := slot.closes + 1 }

/-- The steps of a worker are these. -/
theorem worked_of_work (hstep : slot.work held action = some slot') : Worked slot action slot' := by
  cases action with
  | test =>
    simp only [Slot.work, Option.ite_none_right_eq_some, Option.some.injEq] at hstep
    obtain ⟨⟨htesting, -⟩, rfl⟩ := hstep
    by_cases hflag : slot.td.msgReceived = 1
    · rw [if_pos hflag]
      exact .found htesting hflag
    · rw [if_neg hflag]
      exact .missed htesting hflag
  | wake =>
    simp only [Slot.work, Option.ite_none_right_eq_some, Option.some.injEq] at hstep
    obtain ⟨⟨hwoken, -⟩, rfl⟩ := hstep
    exact .woken hwoken
  | receive =>
    simp only [Slot.work, Option.ite_none_right_eq_some, Option.some.injEq] at hstep
    obtain ⟨hready, rfl⟩ := hstep
    exact .received hready
  | keepAlive message polls =>
    simp only [Slot.work, Option.ite_none_right_eq_some] at hstep
    obtain ⟨hserving, hstep⟩ := hstep
    split at hstep
    · rename_i td timer rest htimer
      simp only [Option.ite_none_left_eq_some, Option.some.injEq] at hstep
      obtain ⟨hkept, rfl⟩ := hstep
      exact .kept hserving (handleTimer_frame htimer).2.2 (msgReceived_of_handleTimer htimer hkept)
    · simp at hstep
  | close message =>
    simp only [Slot.work, Option.ite_none_right_eq_some, Option.some.injEq] at hstep
    obtain ⟨hserving, rfl⟩ := hstep
    exact .closed hserving

/-- A worker between two connections can only test the flag, and goes on or to sleep. -/
theorem work_of_pc_mem (hpc : slot.pc = .testing ∨ slot.pc = .waiting)
    (hstep : slot.work held action = some slot') :
    action = .test ∧
      ((slot.td.msgReceived = 1 ∧ slot' = { slot with pc := .ready }) ∨
        (slot.td.msgReceived ≠ 1 ∧ slot' = { slot with pc := .waiting })) := by
  cases worked_of_work hstep with
  | found _ hflag => exact ⟨rfl, Or.inl ⟨hflag, rfl⟩⟩
  | missed _ hflag => exact ⟨rfl, Or.inr ⟨hflag, rfl⟩⟩
  | woken hwoken => simp [hwoken] at hpc
  | received hready => simp [hready] at hpc
  | kept hserving => simp [hserving] at hpc
  | closed hserving => simp [hserving] at hpc

/-- The worker of a slot without a connection goes to sleep. -/
theorem idle_work (hidle : Idle slot stage) (hstep : slot.work held action = some slot') :
    Idle slot' stage := by
  obtain ⟨-, ⟨hflag, -⟩ | ⟨-, rfl⟩⟩ := work_of_pc_mem hidle.pc_mem hstep
  · exact absurd (hidle.msgReceived_eq.symm.trans hflag) (by decide)
  · exact { hidle with pc_mem := Or.inr rfl }

/-- The worker of a slot that is being stored goes to sleep, unless it finds the flag too early. -/
theorem storing_work (hstoring : Storing slot stage)
    (hguard : action = .test → stage ≠ some .setUsed)
    (hstep : slot.work held action = some slot') : Storing slot' stage := by
  obtain ⟨htest, ⟨hflag, -⟩ | ⟨-, rfl⟩⟩ := work_of_pc_mem hstoring.pc_mem hstep
  · rw [hstoring.msgReceived_eq, if_neg (hguard htest)] at hflag
    exact absurd hflag (by decide)
  · exact { hstoring with pc_mem := Or.inr rfl }

/-- The worker of an announced connection gets ready for it and begins to serve it. -/
theorem announced_work (hannounced : Announced slot stage)
    (hstep : slot.work held action = some slot') : Phase slot' stage := by
  cases worked_of_work hstep with
  | found =>
    exact .announced
      { hannounced with pc_ne := by simp, stage_of_waiting := fun h ↦ by simp at h }
  | missed _ hflag => exact absurd hannounced.msgReceived_eq hflag
  | woken =>
    exact .announced
      { hannounced with pc_ne := by simp, stage_of_waiting := fun h ↦ by simp at h }
  | received =>
    refine .served
      { used_eq := hannounced.used_eq
        inSession_eq := rfl
        dispatches_eq := hannounced.dispatches_eq
        sessions_eq := ?_
        pc_mem := Or.inr (Or.inr rfl)
        stage_eq := hannounced.stage_eq }
    show (if slot.inSession = true then slot.sessions else slot.sessions + 1) = slot.closes + 1
    rw [hannounced.inSession_eq, hannounced.sessions_eq]
    rfl
  | kept hserving => exact absurd hserving hannounced.pc_ne
  | closed hserving => exact absurd hserving hannounced.pc_ne

/-- The worker of a connection in service keeps it or closes it. -/
theorem served_work (hserved : Served slot stage) (hstep : slot.work held action = some slot') :
    Phase slot' stage := by
  have hpc := hserved.pc_mem
  cases worked_of_work hstep with
  | found => exact .served { hserved with pc_mem := Or.inr (Or.inl rfl) }
  | missed htesting hflag =>
    rcases hpc with ⟨-, hset⟩ | hready | hserving
    · exact absurd hset hflag
    · simp [htesting] at hready
    · simp [htesting] at hserving
  | woken hwoken => simp [hwoken] at hpc
  | received =>
    refine .served
      { hserved with inSession_eq := rfl, sessions_eq := ?_, pc_mem := Or.inr (Or.inr rfl) }
    show (if slot.inSession = true then slot.sessions else slot.sessions + 1) = slot.closes + 1
    rw [hserved.inSession_eq, hserved.sessions_eq]
    rfl
  | kept _ hused hflag =>
    exact .served
      { hserved with
        used_eq := hused.trans hserved.used_eq, pc_mem := Or.inl ⟨rfl, hflag⟩ }
  | closed =>
    exact .idle
      { used_eq := rfl
        msgReceived_eq := rfl
        inSession_eq := rfl
        dispatches_eq := hserved.dispatches_eq
        sessions_eq := hserved.sessions_eq
        pc_mem := Or.inl rfl
        stage_eq := storing_of_announcing hserved.stage_eq }

/-- A step of the worker takes the slot on in its life. -/
theorem phase_work (hphase : Phase slot stage) (hguard : action = .test → stage ≠ some .setUsed)
    (hstep : slot.work held action = some slot') : Phase slot' stage := by
  cases hphase with
  | idle hidle => exact .idle (idle_work hidle hstep)
  | storing hstoring => exact .storing (storing_work hstoring hguard hstep)
  | announced hannounced => exact announced_work hannounced hstep
  | served hserved => exact served_work hserved hstep

end Work

/-! ### What the dispatcher does to a slot -/

section Store

variable {slot : Slot} {connSd : Descriptor} {clientAddr : SockaddrIn}

/-- The dispatcher finds the slot free. -/
theorem phase_find (hphase : Phase slot none) (hfree : slot.td.used = -1) :
    Phase slot (some .setConnSd) := by
  cases hphase with
  | idle hidle => exact .idle { hidle with stage_eq := rfl }
  | storing hstoring => exact absurd hstoring.stage_eq Bool.false_ne_true
  | announced hannounced => exact absurd (hfree.symm.trans hannounced.used_eq) (by decide)
  | served hserved => exact absurd (hfree.symm.trans hserved.used_eq) (by decide)

/-- The dispatcher stores in a slot without a connection. -/
theorem idle_store {stage : Stage} (hidle : Idle slot (some stage))
    (hguard : stage = .signal → slot.pc = .waiting → slot.td.msgReceived = 1) :
    Phase (slot.store connSd clientAddr stage) stage.next := by
  cases stage with
  | setConnSd =>
    exact .storing
      { used_eq := hidle.used_eq
        msgReceived_eq := hidle.msgReceived_eq
        inSession_eq := hidle.inSession_eq
        dispatches_eq := congrArg (· + 1) hidle.dispatches_eq
        sessions_eq := hidle.sessions_eq
        pc_mem := hidle.pc_mem
        stage_eq := rfl }
  | lock => exact .idle { hidle with stage_eq := rfl }
  | signal =>
    have hawake : slot.pc ≠ .waiting := by
      intro hwaiting
      exact absurd (hidle.msgReceived_eq.symm.trans (hguard rfl hwaiting)) (by decide)
    rw [Slot.store, if_neg hawake]
    exact .idle { hidle with stage_eq := rfl }
  | unlock => exact .idle { hidle with stage_eq := rfl }
  | _ => exact absurd hidle.stage_eq (by decide)

/-- The dispatcher stores the rest of a connection, and its last store announces it. -/
theorem storing_store {stage : Stage} (hstoring : Storing slot (some stage)) :
    Phase (slot.store connSd clientAddr stage) stage.next := by
  cases stage with
  | setClientAddr => exact .storing { hstoring with }
  | setTimer => exact .storing { hstoring with }
  | setRequest => exact .storing { hstoring with }
  | setMsgReceived => exact .storing { hstoring with msgReceived_eq := rfl }
  | setUsed =>
    refine .announced
      { hstoring with
        used_eq := rfl
        pc_ne := ?_
        stage_of_waiting := fun _ ↦ Or.inl rfl
        stage_eq := Or.inr rfl }
    intro hserving
    have hpc : slot.pc = .serving := hserving
    simpa [hpc] using hstoring.pc_mem
  | _ => exact absurd hstoring.stage_eq (by decide)

/-- The dispatcher wakes the worker of the announced connection if it waits. -/
theorem announced_store {stage : Stage} (hannounced : Announced slot (some stage)) :
    Phase (slot.store connSd clientAddr stage) stage.next := by
  cases stage with
  | lock =>
    exact .announced
      { hannounced with stage_of_waiting := fun _ ↦ Or.inr rfl, stage_eq := Or.inr rfl }
  | signal =>
    unfold Slot.store
    split_ifs with hwaiting
    · exact .announced
        { hannounced with
          pc_ne := by simp, stage_of_waiting := fun h ↦ by simp at h, stage_eq := Or.inr rfl }
    · exact .announced
        { hannounced with stage_of_waiting := fun h ↦ absurd h hwaiting, stage_eq := Or.inr rfl }
  | unlock =>
    refine .announced { hannounced with stage_of_waiting := ?_, stage_eq := Or.inl rfl }
    intro hwaiting
    exact absurd (hannounced.stage_of_waiting hwaiting) (by decide)
  | _ => exact absurd hannounced.stage_eq (by decide)

/-- The signal reaches nobody when the worker already serves the connection. -/
theorem served_store {stage : Stage} (hserved : Served slot (some stage)) :
    Phase (slot.store connSd clientAddr stage) stage.next := by
  have hpc := hserved.pc_mem
  cases stage with
  | lock => exact .served { hserved with stage_eq := Or.inr rfl }
  | signal =>
    have hawake : slot.pc ≠ .waiting := by
      intro hwaiting
      simp [hwaiting] at hpc
    rw [Slot.store, if_neg hawake]
    exact .served { hserved with stage_eq := Or.inr rfl }
  | unlock => exact .served { hserved with stage_eq := Or.inl rfl }
  | _ => exact absurd hserved.stage_eq (by decide)

/-- A step of the dispatcher takes the slot on in its life. -/
theorem phase_store {stage : Stage} (hphase : Phase slot (some stage))
    (hguard : stage = .signal → slot.pc = .waiting → slot.td.msgReceived = 1) :
    Phase (slot.store connSd clientAddr stage) stage.next := by
  cases hphase with
  | idle hidle => exact idle_store hidle hguard
  | storing hstoring => exact storing_store hstoring
  | announced hannounced => exact announced_store hannounced
  | served hserved => exact served_store hserved

end Store

/-! ### Runs of a pool -/

section Runs

variable {ι : Type*} [DecidableEq ι]

/-- Every slot of the pool is somewhere in its life. -/
def Phased (pool : Pool ι) : Prop :=
  ∀ i, Phase (pool.slots i) (pool.stageAt i)

/-- A slot in its life is served as it was assigned. -/
theorem servesAssigned_of_phase {pool : Pool ι} {i : ι}
    (hphase : Phase (pool.slots i) (pool.stageAt i)) : ServesAssigned pool i := by
  cases hphase with
  | idle hidle =>
    have hready : (pool.slots i).pc ≠ .ready := by
      intro hready
      simpa [hready] using hidle.pc_mem
    exact
      { used_eq := fun h ↦ absurd h hready
        closes_lt := fun h ↦ absurd h hready
        closes_le := hidle.sessions_eq.ge
        sessions_le := (hidle.sessions_eq.trans hidle.dispatches_eq.symm).le
        dispatches_le := hidle.dispatches_eq.le.trans (Nat.le_succ _)
        settled := fun _ _ ↦ hidle.dispatches_eq.symm }
  | storing hstoring =>
    have hready : (pool.slots i).pc ≠ .ready := by
      intro hready
      simpa [hready] using hstoring.pc_mem
    have hdispatches := hstoring.dispatches_eq
    have hsessions := hstoring.sessions_eq
    refine
      { used_eq := fun h ↦ absurd h hready
        closes_lt := fun h ↦ absurd h hready
        closes_le := hsessions.ge
        sessions_le := by omega
        dispatches_le := hdispatches.le
        settled := ?_ }
    intro hnone _
    have hstage := hstoring.stage_eq
    rw [hnone] at hstage
    exact absurd hstage Bool.false_ne_true
  | announced hannounced =>
    have hdispatches := hannounced.dispatches_eq
    have hsessions := hannounced.sessions_eq
    refine
      { used_eq := fun _ ↦ hannounced.used_eq
        closes_lt := fun _ ↦ by omega
        closes_le := hsessions.ge
        sessions_le := by omega
        dispatches_le := hdispatches.le
        settled := ?_ }
    intro hnone hwaiting
    have hstage := hannounced.stage_of_waiting hwaiting
    simp [hnone] at hstage
  | served hserved =>
    have hdispatches := hserved.dispatches_eq
    have hsessions := hserved.sessions_eq
    refine
      { used_eq := fun _ ↦ hserved.used_eq
        closes_lt := fun _ ↦ by omega
        closes_le := by omega
        sessions_le := by omega
        dispatches_le := hdispatches.le
        settled := ?_ }
    intro _ hwaiting
    simpa [hwaiting] using hserved.pc_mem

/-- The dispatcher is at no slot while it searches. -/
theorem stageAt_of_searching {pool : Pool ι} (hpool : pool.dispatcher = .searching) (i : ι) :
    pool.stageAt i = none := by
  rw [Pool.stageAt, hpool]

/-- The dispatcher is at the slot of its assignment and at no other. -/
theorem stageAt_of_assigning {pool : Pool ι} {slot : ι} {stage : Stage} {connSd : Descriptor}
    {clientAddr : SockaddrIn} (hpool : pool.dispatcher = .assigning slot stage connSd clientAddr)
    (i : ι) : pool.stageAt i = if slot = i then some stage else none := by
  rw [Pool.stageAt, hpool]

/-- A step in which flag and signal match takes every slot on in its life. -/
theorem phased_step (pool : Pool ι) (action : PoolAction ι) (pool' : Pool ι) (hphased : Phased pool)
    (hguard : FlagAndSignalMatch pool action) (hstep : poolStep pool action = some pool') :
    Phased pool' := by
  intro i
  have hphase := hphased i
  cases action with
  | find slot connSd clientAddr =>
    cases hpool : pool.dispatcher with
    | assigning => simp [poolStep, hpool] at hstep
    | searching =>
      simp only [poolStep, hpool, Option.ite_none_right_eq_some, Option.some.injEq] at hstep
      obtain ⟨hfree, rfl⟩ := hstep
      rw [stageAt_of_searching hpool] at hphase
      rw [stageAt_of_assigning rfl]
      by_cases hslot : slot = i
      · subst hslot
        rw [if_pos rfl]
        exact phase_find hphase hfree
      · rw [if_neg hslot]
        exact hphase
  | assign =>
    cases hpool : pool.dispatcher with
    | searching => simp [poolStep, hpool] at hstep
    | assigning slot stage connSd clientAddr =>
      simp only [poolStep, hpool, Option.some.injEq] at hstep
      subst hstep
      rw [stageAt_of_assigning hpool] at hphase
      by_cases hslot : slot = i
      · subst hslot
        rw [if_pos rfl] at hphase
        have hsignal : stage = .signal → (pool.slots slot).pc = .waiting →
            (pool.slots slot).td.msgReceived = 1 := by
          rintro rfl
          exact hguard slot (by rw [hpool]; rfl)
        have hstored := @phase_store _ connSd clientAddr _ hphase hsignal
        cases hnext : stage.next <;> simpa [Pool.stageAt, hnext] using hstored
      · rw [if_neg hslot] at hphase
        cases hnext : stage.next <;>
          simpa [Pool.stageAt, hslot, Function.update_of_ne (Ne.symm hslot)] using hphase
  | work slot action =>
    obtain ⟨after, hwork, rfl⟩ := Option.map_eq_some_iff.mp hstep
    by_cases hslot : slot = i
    · subst hslot
      have hworked := phase_work hphase (by rintro rfl; exact hguard) hwork
      simpa [Pool.stageAt] using hworked
    · simpa [Pool.stageAt, Function.update_of_ne (Ne.symm hslot)] using hphase

/-- Before the first step every slot is free. -/
theorem phased_startPool : Phased (startPool : Pool ι) := fun _ ↦
  .idle
    { used_eq := rfl
      msgReceived_eq := rfl
      inSession_eq := rfl
      dispatches_eq := rfl
      sessions_eq := rfl
      pc_mem := Or.inl rfl
      stage_eq := rfl }

/-- In every run in which flag and signal match, every worker serves what was assigned to its slot.
-/
theorem servesAssigned_of_guarded {actions : List (PoolAction ι)} {pool : Pool ι}
    (hguarded : Guarded poolStep FlagAndSignalMatch startPool actions)
    (hrun : run poolStep startPool actions = some pool) (i : ι) : ServesAssigned pool i :=
  servesAssigned_of_phase (invariant_of_guarded phased_step phased_startPool hguarded hrun i)

end Runs

/-- In a pool of two slots, the first is found free, and `dispatch_job` makes all its stores. -/
def stores (connSd : Descriptor) : List (PoolAction Bool) :=
  .find false connSd (0, 0) :: List.replicate 6 .assign

/-- Steps of the worker of the first slot. -/
def works (actions : List WorkerAction) : List (PoolAction Bool) :=
  actions.map fun action ↦ .work false action

/-- A worker that sleeps is assigned a connection, serves two requests and closes it. -/
def servedTwice : List (PoolAction Bool) :=
  works [.test] ++ stores 4 ++ List.replicate 3 .assign ++
    works [.wake, .receive, .keepAlive allocatedThread.message [1], .test, .receive,
      .close allocatedThread.message, .test]

/-- A worker finds the flag of its connection, and has closed it when the signal is sent. -/
def staleSignal : List (PoolAction Bool) :=
  stores 4 ++ works [.test, .receive, .close allocatedThread.message, .test] ++
    List.replicate 3 .assign ++ works [.wake]

theorem servesAssigned_servedTwice :
    ∃ pool, run poolStep startPool servedTwice = some pool ∧ ServesAssigned pool false := by
  have hrun : (run poolStep startPool servedTwice).isSome = true := by decide +kernel
  have hguarded : Guarded poolStep FlagAndSignalMatch startPool servedTwice := by decide +kernel
  obtain ⟨pool, hpool⟩ := Option.isSome_iff_exists.mp hrun
  exact ⟨pool, hpool, servesAssigned_of_guarded hguarded hpool false⟩

/-- A signal that comes after the close wakes the worker for a slot that is free. -/
theorem not_servesAssigned :
    ¬ ∀ (actions : List (PoolAction Bool)) (pool : Pool Bool),
      run poolStep startPool actions = some pool → ∀ i, ServesAssigned pool i := by
  intro hserves
  have hstale : (run poolStep startPool staleSignal).map
      (fun pool ↦ ((pool.slots false).pc, (pool.slots false).td.used)) = some (.ready, -1) := by
    decide +kernel
  obtain ⟨pool, hrun, hready⟩ := Option.map_eq_some_iff.mp hstale
  rw [Prod.mk.injEq] at hready
  have hused := (hserves _ pool hrun false).used_eq hready.1
  exact absurd (hready.2.symm.trans hused) (by decide)

/-! ### The steps of a worker and the loop of `handle_client` -/

/-- An iteration of `handle_client` that serves a request is a step of the worker: it keeps the
client or closes the connection. -/
theorem work_of_iterate {slot : Slot} {idx : Fin 5} {worker : Worker} {input : IterationInput}
    {effects : List Effect} (hserving : slot.pc = .serving)
    (hiterate : iterate ⟨slot.td, idx⟩ input = some (worker, effects)) (held : Bool) :
    ∃ action slot', slot.work held action = some slot' ∧ slot'.td = worker.td ∧
      slot'.pc = .testing := by
  obtain ⟨message, hclosed | ⟨polls, timer, hkept, htimer⟩⟩ := endsIn_of_iterate hiterate
  · refine ⟨.close message, _, if_pos hserving, hclosed.symm, rfl⟩
  · refine ⟨.keepAlive message polls, { slot with td := worker.td, pc := .testing }, ?_, rfl, rfl⟩
    rw [Slot.work, if_pos hserving]
    simp only at htimer
    rw [htimer]
    simp only [if_neg hkept]

end ImageApp.Dispatch
