import ImageApp.Foundations.GuardedRuns
import ImageApp.Server.ThreadPool

/-!
# The hand-off from the accept loop to the dispatchers

The main loop accepts a connection, stores it in the dispatcher of the pool it has chosen, and
signals the dispatcher under its mutex. The thread of the dispatcher runs `dispatch_job`: it waits
for the signal, copies the connection, finds a free slot with `get_E`, and stores the connection
there. The store, the lock, the signal, the unlock, the return from the wait, the copy, `get_E` and
the store in the slot are one step each, and the steps of all threads come in any order. The main
loop may choose any pool, and `get_E` any free slot of the pool; while no slot is free it does not
return.

`handedOff_of_guarded` is about every run in which the main loop stores only when no signalled
connection is left to be copied, and signals only when the dispatcher waits: no connection is lost
or stored in two slots, and when the main loop polls and a dispatcher waits, every connection
accepted for its pool is in a slot. The dispatcher has one place for a connection and nothing that
says whether it is taken, so other runs lose connections (`not_handedOff`).
-/

set_option autoImplicit false
set_option relaxedAutoImplicit false

namespace ImageApp.Dispatch

open Foundations.GuardedRuns Server

/-! ### The main loop and the dispatchers -/

/-- An accepted connection, numbered in the order of acceptance. -/
structure Connection where
  number : ℕ
  connSd : Descriptor
  clientAddr : SockaddrIn
  deriving DecidableEq

/-- The next step of the main loop for the connection it has accepted. -/
inductive AcceptStage
  | store (connection : Connection)
  | lock
  | signal
  | unlock

/-- The main loop polls, or hands a connection to a pool. -/
inductive AcceptorPc (π : Type*)
  | polling
  | announcing (pool : π) (stage : AcceptStage)

/-- The next step of `dispatch_job`, with the connection it has copied and the slot it has found. At
`waiting` it sleeps, at `woken` it has been signalled and is about to lock the mutex again. -/
inductive JobPc (σ : Type*)
  | lock
  | wait
  | waiting
  | woken
  | copy
  | unlock (connection : Connection)
  | find (connection : Connection)
  | store (connection : Connection) (slot : σ)

/-- A dispatcher with its pool: what the main loop has stored for it, its thread and the slots. The
lists say which connections were accepted for the pool, stored for the dispatcher, copied by it, and
placed in a slot. -/
structure Dispatcher (σ : Type*) where
  conn : Option Connection
  pc : JobPc σ
  slots : σ → ThreadData
  accepted : List Connection
  stored : List Connection
  copied : List Connection
  placed : List (σ × Connection)

/-- The main loop and the dispatchers of all pools. -/
structure Handoff (π σ : Type*) where
  acceptor : AcceptorPc π
  dispatchers : π → Dispatcher σ
  count : ℕ

/-- A step inside a pool: of `dispatch_job` up to `get_E`, of `get_E` when it finds the given slot,
or of a worker that closes its connection. -/
inductive JobAction (σ : Type*)
  | advance
  | find (slot : σ)
  | release (slot : σ)

/-- A step of the main loop or inside a pool. -/
inductive HandoffAction (π σ : Type*)
  | accept (pool : π) (connSd : Descriptor) (clientAddr : SockaddrIn)
  | announce
  | work (pool : π) (action : JobAction σ)

/-- The stage of the main loop that comes next. -/
def AcceptStage.next : AcceptStage → Option AcceptStage
  | .store _ => some .lock
  | .lock => some .signal
  | .signal => some .unlock
  | .unlock => none

/-- The main loop holds the mutex of the dispatcher. -/
def AcceptStage.holdsMutex : AcceptStage → Bool
  | .signal | .unlock => true
  | _ => false

section Dispatcher

variable {σ : Type*}

/-- The dispatcher holds its mutex. -/
def JobPc.holdsMutex : JobPc σ → Bool
  | .wait | .copy | .unlock _ => true
  | _ => false

/-- The dispatcher sleeps. -/
def JobPc.isWaiting : JobPc σ → Bool
  | .waiting => true
  | _ => false

/-- The dispatcher was signalled and has not yet copied the connection. -/
def JobPc.signalled : JobPc σ → Bool
  | .woken | .copy => true
  | _ => false

/-- The connection that the dispatcher has copied and not yet stored in a slot. -/
def JobPc.inHand : JobPc σ → List Connection
  | .unlock connection | .find connection | .store connection _ => [connection]
  | _ => []

/-- What a stage of the main loop does to the dispatcher. The signal reaches it only when it waits.
-/
def Dispatcher.announce (dispatcher : Dispatcher σ) : AcceptStage → Option (Dispatcher σ)
  | .store connection =>
    some { dispatcher with
      conn := some connection
      stored := dispatcher.stored ++ [connection] }
  | .lock => if dispatcher.pc.holdsMutex then none else some dispatcher
  | .signal =>
    if dispatcher.pc.isWaiting then some { dispatcher with pc := .woken } else some dispatcher
  | .unlock => some dispatcher

section Work

variable [DecidableEq σ]

/-- A step of `dispatch_job`. `held` says that the main loop holds the mutex. -/
def Dispatcher.advance (dispatcher : Dispatcher σ) (held : Bool) : Option (Dispatcher σ) :=
  match dispatcher.pc with
  | .lock => if held then none else some { dispatcher with pc := .wait }
  | .wait => some { dispatcher with pc := .waiting }
  | .waiting => none
  | .woken => if held then none else some { dispatcher with pc := .copy }
  | .copy =>
    dispatcher.conn.map fun connection ↦
      { dispatcher with pc := .unlock connection, copied := dispatcher.copied ++ [connection] }
  | .unlock connection => some { dispatcher with pc := .find connection }
  | .find _ => none
  | .store connection slot =>
    some { dispatcher with
      pc := .lock
      slots := Function.update dispatcher.slots slot
        (assignConnection (dispatcher.slots slot) connection.connSd connection.clientAddr)
      placed := dispatcher.placed ++ [(slot, connection)] }

/-- A step inside a pool. -/
def Dispatcher.work (dispatcher : Dispatcher σ) (held : Bool) :
    JobAction σ → Option (Dispatcher σ)
  | .advance => dispatcher.advance held
  | .find slot =>
    match dispatcher.pc with
    | .find connection =>
      if (dispatcher.slots slot).used = -1 then
        some { dispatcher with pc := .store connection slot }
      else none
    | _ => none
  | .release slot =>
    if (dispatcher.slots slot).used = 1 then
      some { dispatcher with
        slots := Function.update dispatcher.slots slot
          (closeClientWithStatus (dispatcher.slots slot) .connectionClosed).1 }
    else none

end Work

/-- The dispatcher can take what the stage does: a store does not overwrite a connection that was
signalled and not copied, and a signal finds it waiting. -/
def Dispatcher.isReadyFor (dispatcher : Dispatcher σ) : AcceptStage → Bool
  | .store _ => !dispatcher.pc.signalled
  | .signal => dispatcher.pc.isWaiting
  | _ => true

/-- A dispatcher at the start of the program. -/
def startDispatcher : Dispatcher σ where
  conn := none
  pc := .lock
  slots := fun _ ↦ allocatedThread
  accepted := []
  stored := []
  copied := []
  placed := []

end Dispatcher

section Handoff

variable {π σ : Type*} [DecidableEq π] [DecidableEq σ]

omit [DecidableEq σ] in
/-- The stage of the main loop if it hands a connection to the given pool. -/
def Handoff.stageAt (handoff : Handoff π σ) (p : π) : Option AcceptStage :=
  match handoff.acceptor with
  | .polling => none
  | .announcing pool stage => if pool = p then some stage else none

/-- A step of the main loop or inside a pool. -/
def handoffStep (handoff : Handoff π σ) : HandoffAction π σ → Option (Handoff π σ)
  | .accept pool connSd clientAddr =>
    match handoff.acceptor with
    | .polling =>
      let connection : Connection := ⟨handoff.count, connSd, clientAddr⟩
      let dispatcher := handoff.dispatchers pool
      some
        { acceptor := .announcing pool (.store connection)
          dispatchers := Function.update handoff.dispatchers pool
            { dispatcher with accepted := dispatcher.accepted ++ [connection] }
          count := handoff.count + 1 }
    | .announcing .. => none
  | .announce =>
    match handoff.acceptor with
    | .polling => none
    | .announcing pool stage =>
      ((handoff.dispatchers pool).announce stage).map fun dispatcher ↦
        { handoff with
          acceptor :=
            match stage.next with
            | some stage => .announcing pool stage
            | none => .polling
          dispatchers := Function.update handoff.dispatchers pool dispatcher }
  | .work pool action =>
    let held := (handoff.stageAt pool).any AcceptStage.holdsMutex
    ((handoff.dispatchers pool).work held action).map fun dispatcher ↦
      { handoff with dispatchers := Function.update handoff.dispatchers pool dispatcher }

/-- The program before the first connection. -/
def startHandoff : Handoff π σ where
  acceptor := .polling
  dispatchers := fun _ ↦ startDispatcher
  count := 0

omit [DecidableEq π] [DecidableEq σ] in
/-- The main loop announces to a dispatcher that can take what it does. -/
def AnnouncesToReady (handoff : Handoff π σ) : HandoffAction π σ → Prop
  | .announce =>
    (match handoff.acceptor with
    | .polling => true
    | .announcing pool stage => (handoff.dispatchers pool).isReadyFor stage) = true
  | _ => True

instance decidableAnnouncesToReady (handoff : Handoff π σ) :
    ∀ action, Decidable (AnnouncesToReady handoff action)
  | .announce => inferInstanceAs (Decidable (_ = true))
  | .accept .. | .work .. => isTrue trivial

/-- No connection is lost on the way to the slots, and none is stored twice. -/
structure HandedOff (handoff : Handoff π σ) : Prop where
  kept : ∀ p, ∀ connection ∈ (handoff.dispatchers p).stored,
    connection ∈ (handoff.dispatchers p).copied ∨ (handoff.dispatchers p).conn = some connection
  nodup : ∀ p, ((handoff.dispatchers p).placed.map Prod.snd).Nodup
  disjoint : ∀ p q, ∀ connection ∈ (handoff.dispatchers p).placed.map Prod.snd,
    connection ∈ (handoff.dispatchers q).placed.map Prod.snd → p = q
  settled : handoff.acceptor = .polling → ∀ p, (handoff.dispatchers p).pc = .waiting →
    ∀ connection ∈ (handoff.dispatchers p).accepted,
      connection ∈ (handoff.dispatchers p).placed.map Prod.snd

end Handoff

/-! ### What a step inside a pool does -/

section Job

variable {σ : Type*}

/-- The dispatcher moves on with what it has, copies the stored connection, or places the one in its
hand, or a worker frees its slot. -/
inductive JobStep (dispatcher : Dispatcher σ) : Dispatcher σ → Prop
  | moved {pc : JobPc σ} (hsignalled : pc.signalled = dispatcher.pc.signalled)
    (hinHand : pc.inHand = dispatcher.pc.inHand) : JobStep dispatcher { dispatcher with pc := pc }
  | copied {connection : Connection} (hpc : dispatcher.pc = .copy)
    (hconn : dispatcher.conn = some connection) :
    JobStep dispatcher
      { dispatcher with pc := .unlock connection, copied := dispatcher.copied ++ [connection] }
  | placed {connection : Connection} {slot : σ} {slots : σ → ThreadData}
    (hpc : dispatcher.pc = .store connection slot) :
    JobStep dispatcher
      { dispatcher with
        pc := .lock, slots := slots, placed := dispatcher.placed ++ [(slot, connection)] }
  | released {slots : σ → ThreadData} : JobStep dispatcher { dispatcher with slots := slots }

variable [DecidableEq σ] {dispatcher dispatcher' : Dispatcher σ} {held : Bool}

/-- The steps of `dispatch_job` are such steps. -/
theorem jobStep_of_advance (hstep : dispatcher.advance held = some dispatcher') :
    JobStep dispatcher dispatcher' := by
  unfold Dispatcher.advance at hstep
  cases hpc : dispatcher.pc with
  | lock =>
    simp only [hpc, Option.ite_none_left_eq_some, Option.some.injEq] at hstep
    obtain ⟨-, rfl⟩ := hstep
    exact .moved (by rw [hpc]; rfl) (by rw [hpc]; rfl)
  | wait =>
    simp only [hpc, Option.some.injEq] at hstep
    subst hstep
    exact .moved (by rw [hpc]; rfl) (by rw [hpc]; rfl)
  | waiting => simp [hpc] at hstep
  | woken =>
    simp only [hpc, Option.ite_none_left_eq_some, Option.some.injEq] at hstep
    obtain ⟨-, rfl⟩ := hstep
    exact .moved (by rw [hpc]; rfl) (by rw [hpc]; rfl)
  | copy =>
    simp only [hpc, Option.map_eq_some_iff] at hstep
    obtain ⟨connection, hconn, rfl⟩ := hstep
    exact .copied hpc hconn
  | unlock connection =>
    simp only [hpc, Option.some.injEq] at hstep
    subst hstep
    exact .moved (by rw [hpc]; rfl) (by rw [hpc]; rfl)
  | find => simp [hpc] at hstep
  | store connection slot =>
    simp only [hpc, Option.some.injEq] at hstep
    subst hstep
    exact .placed hpc

/-- The steps inside a pool are such steps. -/
theorem jobStep_of_work {action : JobAction σ}
    (hstep : dispatcher.work held action = some dispatcher') : JobStep dispatcher dispatcher' := by
  cases action with
  | advance => exact jobStep_of_advance hstep
  | find slot =>
    unfold Dispatcher.work at hstep
    cases hpc : dispatcher.pc with
    | find connection =>
      simp only [hpc, Option.ite_none_right_eq_some, Option.some.injEq] at hstep
      obtain ⟨-, rfl⟩ := hstep
      exact .moved (by rw [hpc]; rfl) (by rw [hpc]; rfl)
    | _ => simp [hpc] at hstep
  | release slot =>
    simp only [Dispatcher.work, Option.ite_none_right_eq_some, Option.some.injEq] at hstep
    obtain ⟨-, rfl⟩ := hstep
    exact .released

end Job

/-! ### Where a connection is -/

section Delivery

variable {σ : Type*}

/-- The connection that the main loop has accepted and not yet stored. -/
def carried : Option AcceptStage → List Connection
  | some (.store connection) => [connection]
  | _ => []

/-- The main loop has stored a connection and not yet signalled. -/
def unsignalled : Option AcceptStage → Bool
  | some .lock | some .signal => true
  | _ => false

/-- The connection that is stored for the dispatcher and not yet copied. -/
def Dispatcher.pending (dispatcher : Dispatcher σ) (stage : Option AcceptStage) : List Connection :=
  if unsignalled stage || dispatcher.pc.signalled then dispatcher.conn.toList else []

/-- Every connection of the pool is with the main loop, stored, in the hand of the dispatcher, or in
a slot, and at most one is stored or about to be. -/
structure Delivered (dispatcher : Dispatcher σ) (stage : Option AcceptStage) : Prop where
  accepted_eq : dispatcher.accepted = dispatcher.stored ++ carried stage
  stored_eq : dispatcher.stored = dispatcher.copied ++ dispatcher.pending stage
  copied_eq : dispatcher.copied = dispatcher.placed.map Prod.snd ++ dispatcher.pc.inHand
  unsignalled_eq : dispatcher.pc.signalled = true → unsignalled stage = false

/-- A connection is accepted while the main loop polls. -/
theorem delivered_accept {dispatcher : Dispatcher σ} (hdelivered : Delivered dispatcher none)
    (connection : Connection) :
    Delivered { dispatcher with accepted := dispatcher.accepted ++ [connection] }
      (some (.store connection)) := by
  have haccepted : dispatcher.accepted = dispatcher.stored ++ [] := hdelivered.accepted_eq
  rw [List.append_nil] at haccepted
  exact
    { hdelivered with
      accepted_eq := congrArg (· ++ [connection]) haccepted
      unsignalled_eq := fun _ ↦ rfl }

/-- A stage of the main loop that finds the dispatcher ready takes the connection on. -/
theorem delivered_announce {dispatcher dispatcher' : Dispatcher σ} {stage : AcceptStage}
    (hdelivered : Delivered dispatcher (some stage)) (hready : dispatcher.isReadyFor stage = true)
    (hstep : dispatcher.announce stage = some dispatcher') :
    Delivered dispatcher' stage.next := by
  cases stage with
  | store connection =>
    simp only [Dispatcher.announce, Option.some.injEq] at hstep
    subst hstep
    have hsignalled : dispatcher.pc.signalled = false := by
      simpa [Dispatcher.isReadyFor] using hready
    have hstored := hdelivered.stored_eq
    simp only [Dispatcher.pending, unsignalled, hsignalled, Bool.or_self, Bool.false_eq_true,
      if_false, List.append_nil] at hstored
    refine
      { accepted_eq := ?_
        stored_eq := congrArg (· ++ [connection]) hstored
        copied_eq := hdelivered.copied_eq
        unsignalled_eq := ?_ }
    · have haccepted := hdelivered.accepted_eq
      show dispatcher.accepted = dispatcher.stored ++ [connection] ++ []
      rw [List.append_nil]
      exact haccepted
    · intro hcopying
      exact absurd (hsignalled.symm.trans hcopying) Bool.false_ne_true
  | lock =>
    simp only [Dispatcher.announce] at hstep
    split_ifs at hstep with hmutex
    rw [Option.some.injEq] at hstep
    subst hstep
    exact { hdelivered with }
  | signal =>
    have hwaiting : dispatcher.pc.isWaiting = true := hready
    have hpc : dispatcher.pc = .waiting := by
      cases hpc : dispatcher.pc <;> simp_all [JobPc.isWaiting]
    simp only [Dispatcher.announce, hwaiting, if_true, Option.some.injEq] at hstep
    subst hstep
    have hcopied := hdelivered.copied_eq
    rw [hpc] at hcopied
    exact
      { accepted_eq := hdelivered.accepted_eq
        stored_eq := hdelivered.stored_eq
        copied_eq := hcopied
        unsignalled_eq := fun _ ↦ rfl }
  | unlock =>
    simp only [Dispatcher.announce, Option.some.injEq] at hstep
    subst hstep
    exact { hdelivered with }

/-- A step of the dispatcher that neither copies nor places keeps every connection where it is. -/
theorem delivered_of_pc {dispatcher : Dispatcher σ} {stage : Option AcceptStage}
    (hdelivered : Delivered dispatcher stage) {pc : JobPc σ}
    (hsignalled : pc.signalled = dispatcher.pc.signalled)
    (hinHand : pc.inHand = dispatcher.pc.inHand) :
    Delivered { dispatcher with pc := pc } stage := by
  have hstored := hdelivered.stored_eq
  have hcopied := hdelivered.copied_eq
  have hunsignalled := hdelivered.unsignalled_eq
  rw [Dispatcher.pending, ← hsignalled] at hstored
  rw [← hinHand] at hcopied
  rw [← hsignalled] at hunsignalled
  exact
    { accepted_eq := hdelivered.accepted_eq
      stored_eq := hstored
      copied_eq := hcopied
      unsignalled_eq := hunsignalled }

/-- A step inside the pool takes the connection on. -/
theorem delivered_of_jobStep {dispatcher dispatcher' : Dispatcher σ} {stage : Option AcceptStage}
    (hdelivered : Delivered dispatcher stage) (hstep : JobStep dispatcher dispatcher') :
    Delivered dispatcher' stage := by
  have hstored := hdelivered.stored_eq
  have hcopied := hdelivered.copied_eq
  cases hstep with
  | moved hsignalled hinHand => exact delivered_of_pc hdelivered hsignalled hinHand
  | released => exact { hdelivered with }
  | @copied connection hpc hconn =>
    rw [Dispatcher.pending, hpc, hconn] at hstored
    rw [hpc] at hcopied
    have hstage : unsignalled stage = false := hdelivered.unsignalled_eq (by rw [hpc]; rfl)
    refine
      { accepted_eq := hdelivered.accepted_eq
        stored_eq := ?_
        copied_eq := ?_
        unsignalled_eq := fun _ ↦ hstage }
    · -- What was pending is copied now.
      rw [Dispatcher.pending, hstage]
      simpa [JobPc.signalled] using hstored
    · show dispatcher.copied ++ [connection] = dispatcher.placed.map Prod.snd ++ [connection]
      rw [hcopied]
      simp [JobPc.inHand]
  | @placed connection slot slots hpc =>
    rw [Dispatcher.pending, hpc] at hstored
    rw [hpc] at hcopied
    refine
      { accepted_eq := hdelivered.accepted_eq
        stored_eq := hstored
        copied_eq := ?_
        unsignalled_eq := fun h ↦ absurd h Bool.false_ne_true }
    show dispatcher.copied = (dispatcher.placed ++ [(slot, connection)]).map Prod.snd ++ []
    rw [hcopied]
    simp [JobPc.inHand]

end Delivery

/-! ### Which connections were accepted -/

section Acceptance

variable {π σ : Type*}

/-- The numbers of the accepted connections are below the count, and no connection was accepted
twice. -/
structure Numbered (handoff : Handoff π σ) : Prop where
  number_lt : ∀ p, ∀ connection ∈ (handoff.dispatchers p).accepted,
    connection.number < handoff.count
  nodup : ∀ p, (handoff.dispatchers p).accepted.Nodup
  disjoint : ∀ p q, ∀ connection ∈ (handoff.dispatchers p).accepted,
    connection ∈ (handoff.dispatchers q).accepted → p = q

/-- The stages of the main loop after the acceptance accept nothing. -/
theorem accepted_announce {dispatcher dispatcher' : Dispatcher σ} {stage : AcceptStage}
    (hstep : dispatcher.announce stage = some dispatcher') :
    dispatcher'.accepted = dispatcher.accepted := by
  cases stage with
  | lock =>
    simp only [Dispatcher.announce] at hstep
    split_ifs at hstep
    rw [Option.some.injEq] at hstep
    rw [hstep]
  | signal =>
    simp only [Dispatcher.announce] at hstep
    split_ifs at hstep
    · rw [Option.some.injEq] at hstep
      rw [← hstep]
    · rw [Option.some.injEq] at hstep
      rw [hstep]
  | _ =>
    simp only [Dispatcher.announce, Option.some.injEq] at hstep
    rw [← hstep]

/-- The steps inside a pool accept nothing. -/
theorem accepted_of_jobStep {dispatcher dispatcher' : Dispatcher σ}
    (hstep : JobStep dispatcher dispatcher') : dispatcher'.accepted = dispatcher.accepted := by
  cases hstep <;> rfl

variable [DecidableEq π] {handoff : Handoff π σ}

/-- A pool whose dispatcher accepts nothing keeps the numbering. -/
theorem numbered_update (hnumbered : Numbered handoff) (acceptor : AcceptorPc π) {pool : π}
    {dispatcher : Dispatcher σ}
    (haccepted : dispatcher.accepted = (handoff.dispatchers pool).accepted) :
    Numbered { handoff with
      acceptor := acceptor
      dispatchers := Function.update handoff.dispatchers pool dispatcher } := by
  have hsame : ∀ p, (Function.update handoff.dispatchers pool dispatcher p).accepted =
      (handoff.dispatchers p).accepted := by
    intro p
    by_cases hp : p = pool
    · subst hp
      rw [Function.update_self, haccepted]
    · rw [Function.update_of_ne hp]
  constructor
  · intro p
    rw [hsame p]
    exact hnumbered.number_lt p
  · intro p
    rw [hsame p]
    exact hnumbered.nodup p
  · intro p q
    rw [hsame p, hsame q]
    exact hnumbered.disjoint p q

/-- The connection that is accepted next gets a new number. -/
theorem numbered_accept (hnumbered : Numbered handoff) (acceptor : AcceptorPc π) (pool : π)
    (connSd : Descriptor) (clientAddr : SockaddrIn) :
    Numbered
      { acceptor := acceptor
        dispatchers := Function.update handoff.dispatchers pool
          { handoff.dispatchers pool with
            accepted := (handoff.dispatchers pool).accepted ++
              [⟨handoff.count, connSd, clientAddr⟩] }
        count := handoff.count + 1 } := by
  have hnew : ∀ p, (⟨handoff.count, connSd, clientAddr⟩ : Connection) ∉
      (handoff.dispatchers p).accepted := by
    intro p hmem
    exact absurd (hnumbered.number_lt p _ hmem) (lt_irrefl _)
  -- An accepted connection is the new one, or it was accepted before.
  have hcases : ∀ p connection,
      connection ∈ (Function.update handoff.dispatchers pool
        { handoff.dispatchers pool with
          accepted := (handoff.dispatchers pool).accepted ++
            [⟨handoff.count, connSd, clientAddr⟩] } p).accepted →
        connection ∈ (handoff.dispatchers p).accepted ∨
          (p = pool ∧ connection = ⟨handoff.count, connSd, clientAddr⟩) := by
    intro p connection hmem
    by_cases hp : p = pool
    · subst hp
      rw [Function.update_self, List.mem_append, List.mem_singleton] at hmem
      exact hmem.imp_right fun heq ↦ ⟨rfl, heq⟩
    · rw [Function.update_of_ne hp] at hmem
      exact Or.inl hmem
  constructor
  · intro p connection hmem
    rcases hcases p connection hmem with hold | ⟨-, rfl⟩
    · exact Nat.lt_succ_of_lt (hnumbered.number_lt p connection hold)
    · exact Nat.lt_succ_self _
  · intro p
    show (Function.update handoff.dispatchers pool _ p).accepted.Nodup
    by_cases hp : p = pool
    · subst hp
      rw [Function.update_self]
      refine List.nodup_append.mpr ⟨hnumbered.nodup p, List.nodup_singleton _, ?_⟩
      intro connection hold new hmem heq
      rw [List.mem_singleton] at hmem
      exact hnew p (hmem ▸ heq ▸ hold)
    · rw [Function.update_of_ne hp]
      exact hnumbered.nodup p
  · intro p q connection hp hq
    rcases hcases p connection hp with hold | ⟨rfl, rfl⟩
    · rcases hcases q connection hq with hold' | ⟨rfl, rfl⟩
      · exact hnumbered.disjoint p q connection hold hold'
      · exact absurd hold (hnew p)
    · rcases hcases q _ hq with hold' | ⟨rfl, -⟩
      · exact absurd hold' (hnew q)
      · rfl

end Acceptance

/-! ### Runs of the main loop and the dispatchers -/

section Runs

variable {π σ : Type*} [DecidableEq π] [DecidableEq σ]

omit [DecidableEq σ] in
/-- The main loop hands nothing to a pool while it polls. -/
theorem stageAt_of_polling {handoff : Handoff π σ} (hpolling : handoff.acceptor = .polling)
    (p : π) : handoff.stageAt p = none := by
  rw [Handoff.stageAt, hpolling]

omit [DecidableEq σ] in
/-- The main loop hands its connection to one pool and to no other. -/
theorem stageAt_of_announcing {handoff : Handoff π σ} {pool : π} {stage : AcceptStage}
    (hannouncing : handoff.acceptor = .announcing pool stage) (p : π) :
    handoff.stageAt p = if pool = p then some stage else none := by
  rw [Handoff.stageAt, hannouncing]

/-- Every connection is on its way to one slot. -/
structure OnTheWay (handoff : Handoff π σ) : Prop where
  delivered : ∀ p, Delivered (handoff.dispatchers p) (handoff.stageAt p)
  numbered : Numbered handoff

omit [DecidableEq σ] in
/-- What is on its way is handed off. -/
theorem handedOff_of_onTheWay {handoff : Handoff π σ} (honTheWay : OnTheWay handoff) :
    HandedOff handoff := by
  -- A placed connection was copied, so it was stored, so it was accepted.
  have hplaced : ∀ p, (handoff.dispatchers p).placed.map Prod.snd <+:
      (handoff.dispatchers p).accepted := by
    intro p
    have hdelivered := honTheWay.delivered p
    rw [hdelivered.accepted_eq, hdelivered.stored_eq, hdelivered.copied_eq, List.append_assoc,
      List.append_assoc]
    exact List.prefix_append ..
  constructor
  · intro p connection hmem
    rw [(honTheWay.delivered p).stored_eq, List.mem_append] at hmem
    apply hmem.imp_right
    intro hpending
    unfold Dispatcher.pending at hpending
    split_ifs at hpending
    · rwa [Option.mem_toList] at hpending
    · simp at hpending
  · intro p
    exact (honTheWay.numbered.nodup p).sublist (hplaced p).sublist
  · intro p q connection hp hq
    exact honTheWay.numbered.disjoint p q connection ((hplaced p).subset hp) ((hplaced q).subset hq)
  · intro hpolling p hwaiting connection hmem
    have hdelivered := honTheWay.delivered p
    rw [hdelivered.accepted_eq, hdelivered.stored_eq, hdelivered.copied_eq, Dispatcher.pending,
      stageAt_of_polling hpolling, hwaiting] at hmem
    simpa [carried, unsignalled, JobPc.signalled, JobPc.inHand] using hmem

/-- A step that announces only to a ready dispatcher keeps every connection on its way. -/
theorem onTheWay_step (handoff : Handoff π σ) (action : HandoffAction π σ) (handoff' : Handoff π σ)
    (honTheWay : OnTheWay handoff) (hguard : AnnouncesToReady handoff action)
    (hstep : handoffStep handoff action = some handoff') : OnTheWay handoff' := by
  cases action with
  | accept pool connSd clientAddr =>
    cases hacceptor : handoff.acceptor with
    | announcing => simp [handoffStep, hacceptor] at hstep
    | polling =>
      simp only [handoffStep, hacceptor, Option.some.injEq] at hstep
      subst hstep
      refine ⟨?_, numbered_accept honTheWay.numbered ..⟩
      intro p
      have hdelivered := honTheWay.delivered p
      rw [stageAt_of_polling hacceptor] at hdelivered
      rw [stageAt_of_announcing rfl]
      by_cases hp : pool = p
      · subst hp
        rw [if_pos rfl]
        simpa using delivered_accept hdelivered ⟨handoff.count, connSd, clientAddr⟩
      · rw [if_neg hp]
        simpa [Function.update_of_ne (Ne.symm hp)] using hdelivered
  | announce =>
    cases hacceptor : handoff.acceptor with
    | polling => simp [handoffStep, hacceptor] at hstep
    | announcing pool stage =>
      simp only [handoffStep, hacceptor, Option.map_eq_some_iff] at hstep
      obtain ⟨dispatcher, hannounce, rfl⟩ := hstep
      simp only [AnnouncesToReady, hacceptor] at hguard
      refine ⟨?_, numbered_update honTheWay.numbered _ (accepted_announce hannounce)⟩
      intro p
      have hdelivered := honTheWay.delivered p
      rw [stageAt_of_announcing hacceptor] at hdelivered
      by_cases hp : pool = p
      · subst hp
        rw [if_pos rfl] at hdelivered
        have hannounced := delivered_announce hdelivered hguard hannounce
        cases hnext : stage.next <;> simpa [Handoff.stageAt, hnext] using hannounced
      · rw [if_neg hp] at hdelivered
        cases hnext : stage.next <;>
          simpa [Handoff.stageAt, hp, Function.update_of_ne (Ne.symm hp)] using hdelivered
  | work pool action =>
    obtain ⟨dispatcher, hwork, rfl⟩ := Option.map_eq_some_iff.mp hstep
    refine ⟨?_, numbered_update honTheWay.numbered _ (accepted_of_jobStep (jobStep_of_work hwork))⟩
    intro p
    have hdelivered := honTheWay.delivered p
    by_cases hp : pool = p
    · subst hp
      have hworked := delivered_of_jobStep hdelivered (jobStep_of_work hwork)
      simpa [Handoff.stageAt] using hworked
    · simpa [Handoff.stageAt, Function.update_of_ne (Ne.symm hp)] using hdelivered

omit [DecidableEq σ] in
/-- Before the first connection nothing is on its way. -/
theorem onTheWay_startHandoff : OnTheWay (startHandoff : Handoff π σ) where
  delivered := fun _ ↦
    { accepted_eq := rfl
      stored_eq := rfl
      copied_eq := rfl
      unsignalled_eq := fun h ↦ absurd h Bool.false_ne_true }
  numbered :=
    { number_lt := fun _ _ hmem ↦ absurd hmem List.not_mem_nil
      nodup := fun _ ↦ List.nodup_nil
      disjoint := fun _ _ _ hmem ↦ absurd hmem List.not_mem_nil }

/-- In every run in which the main loop announces only to a ready dispatcher, no connection is lost
or stored twice. -/
theorem handedOff_of_guarded {actions : List (HandoffAction π σ)} {handoff : Handoff π σ}
    (hguarded : Guarded handoffStep AnnouncesToReady startHandoff actions)
    (hrun : run handoffStep startHandoff actions = some handoff) : HandedOff handoff :=
  handedOff_of_onTheWay (invariant_of_guarded onTheWay_step onTheWay_startHandoff hguarded hrun)

end Runs

/-- Steps of the dispatcher when there is one pool, of two slots. -/
def advances (steps : ℕ) : List (HandoffAction Unit Bool) :=
  List.replicate steps (.work () .advance)

/-- The main loop accepts a connection for the only pool and takes the given number of steps. -/
def accepts (connSd : Descriptor) (steps : ℕ) : List (HandoffAction Unit Bool) :=
  .accept () connSd (0, 0) :: List.replicate steps .announce

/-- A connection is handed to the waiting dispatcher and placed in a slot, and then a second one. -/
def oneByOne : List (HandoffAction Unit Bool) :=
  advances 2 ++ accepts 4 4 ++ advances 3 ++ [.work () (.find false)] ++ advances 3 ++
    accepts 5 4 ++ advances 3 ++ [.work () (.find true)] ++ advances 3

/-- A second connection is accepted before the dispatcher has locked its mutex again. -/
def quickAccepts : List (HandoffAction Unit Bool) :=
  advances 2 ++ accepts 4 4 ++ accepts 5 1

theorem handedOff_oneByOne :
    ∃ handoff, run handoffStep startHandoff oneByOne = some handoff ∧ HandedOff handoff := by
  have hrun : (run handoffStep startHandoff oneByOne).isSome = true := by decide +kernel
  have hguarded : Guarded handoffStep AnnouncesToReady startHandoff oneByOne := by decide +kernel
  obtain ⟨handoff, hhandoff⟩ := Option.isSome_iff_exists.mp hrun
  exact ⟨handoff, hhandoff, handedOff_of_guarded hguarded hhandoff⟩

/-- Two quick connections for one pool, and the first is lost. -/
theorem not_handedOff :
    ¬ ∀ (actions : List (HandoffAction Unit Bool)) (handoff : Handoff Unit Bool),
      run handoffStep startHandoff actions = some handoff → HandedOff handoff := by
  intro hhandedOff
  have hlost : (run handoffStep startHandoff quickAccepts).map
      (fun handoff ↦ ((handoff.dispatchers ()).stored, (handoff.dispatchers ()).copied,
        (handoff.dispatchers ()).conn)) =
      some ([⟨0, 4, (0, 0)⟩, ⟨1, 5, (0, 0)⟩], [], some ⟨1, 5, (0, 0)⟩) := by
    decide +kernel
  obtain ⟨handoff, hrun, hmail⟩ := Option.map_eq_some_iff.mp hlost
  rw [Prod.mk.injEq, Prod.mk.injEq] at hmail
  obtain ⟨hstored, hcopied, hconn⟩ := hmail
  have hfirst : (⟨0, 4, (0, 0)⟩ : Connection) ∈ (handoff.dispatchers ()).stored := by
    rw [hstored]
    exact List.mem_cons_self
  have hkept := (hhandedOff _ handoff hrun).kept () _ hfirst
  rw [hcopied, hconn] at hkept
  exact absurd hkept (by decide)

end ImageApp.Dispatch
