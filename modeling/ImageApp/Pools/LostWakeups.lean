import ImageApp.Foundations.GuardedRuns
import ImageApp.Server.PoolRing

/-!
# Waiting for a free slot

The dispatcher of a pool and its workers, as their steps are interleaved. `get_E` tests the slots of
the pool one by one without the mutex; when none was free it locks the mutex and waits on
`cb_not_full`, and scans again after a signal. A worker that closes its connection stores
`used = -1`, locks the mutex, signals and unlocks. A signal is lost when nobody waits.

`missed` is kept for the statement: the free slots whose workers have signalled behind the test of
the current scan. `covered_step` is the invariant: a free slot that the scan has passed has a worker
that is still to signal, or is missed. `awake_iff` says when a dispatcher never sleeps next to a
free slot, and `run_getE` that the tests are those of `get_E` when no worker comes in between.
-/

set_option autoImplicit false
set_option relaxedAutoImplicit false

namespace ImageApp.Pools

open Foundations.CyclicScan Foundations.GuardedRuns Server

variable {n : ℕ}

/-- Where the dispatcher is: without a connection to hand out, in the scan, with the mutex in front
of the wait, in the wait, signalled, behind the wait with the mutex, or with a slot in front of the
store of `used`. -/
inductive DispatcherPlace (n : ℕ)
  | idle
  | testing (i : ℕ)
  | entering
  | waiting
  | woken
  | resumed
  | found (nE : Fin n)
  deriving DecidableEq

/-- Where a worker is in `close_client_with_status`: outside, behind the store of `used`, with the
mutex in front of the signal, and behind the signal. -/
inductive WorkerPlace
  | outside
  | releasing
  | signalling
  | unlocking
  deriving DecidableEq

/-- The dispatcher and the workers of a pool. -/
structure WaitRun (n : ℕ) where
  pool : PoolT n
  mtx : Bool
  dispatcher : DispatcherPlace n
  worker : Fin n → WorkerPlace
  missed : Fin n → Bool

/-- A step of the dispatcher or of the worker of a slot. -/
inductive WaitAction (n : ℕ)
  | dispatcher
  | worker (nE : Fin n)
  deriving DecidableEq

/-- The store of `used`. -/
def storeUsed (pool : PoolT n) (nE : Fin n) (used : ℤ) : PoolT n :=
  { pool with arr := Function.update pool.arr nE { pool.arr nE with used := used } }

/-- The dispatcher has tested the slot and neither waits nor has started another scan. -/
def passed (state : WaitRun n) (nE : Fin n) : Bool :=
  match state.dispatcher with
  | .testing i => ahead state.pool.e nE < i
  | .entering => true
  | _ => false

/-- The next step of the dispatcher. -/
def dispatcherStep [NeZero n] (state : WaitRun n) : Option (WaitRun n) :=
  match state.dispatcher with
  | .idle => some { state with dispatcher := .testing 0, missed := fun _ ↦ false }
  | .testing i =>
    if i < n then
      if isFree state.pool (slotAt n state.pool.e i) then
        some { state with
          pool := { state.pool with e := (slotAt n state.pool.e i + 1) % n }
          dispatcher := .found (slotAt n state.pool.e i) }
      else some { state with dispatcher := .testing (i + 1) }
    else if state.mtx then none
    else some { state with mtx := true, dispatcher := .entering }
  | .entering => some { state with mtx := false, dispatcher := .waiting }
  | .waiting => none
  | .woken => if state.mtx then none else some { state with mtx := true, dispatcher := .resumed }
  | .resumed => some
    { state with mtx := false, dispatcher := .testing 0, missed := fun _ ↦ false }
  | .found nE => some { state with pool := storeUsed state.pool nE 1, dispatcher := .idle }

/-- The place of the dispatcher after a signal. -/
def signalled (place : DispatcherPlace n) : DispatcherPlace n :=
  if place = .waiting then .woken else place

/-- The next step of the worker of a slot. -/
def closerStep (state : WaitRun n) (nE : Fin n) : Option (WaitRun n) :=
  match state.worker nE with
  | .outside =>
    if (state.pool.arr nE).used = 1 then
      some { state with
        pool := storeUsed state.pool nE (-1)
        worker := Function.update state.worker nE .releasing }
    else none
  | .releasing =>
    if state.mtx then none
    else some { state with
      mtx := true
      worker := Function.update state.worker nE .signalling }
  | .signalling => some { state with
      dispatcher := signalled state.dispatcher
      worker := Function.update state.worker nE .unlocking
      missed := Function.update state.missed nE
        (state.missed nE || (passed state nE && isFree state.pool nE)) }
  | .unlocking => some { state with
      mtx := false
      worker := Function.update state.worker nE .outside }

/-- A step of the interleaving. -/
def waitStep [NeZero n] (state : WaitRun n) : WaitAction n → Option (WaitRun n)
  | .dispatcher => dispatcherStep state
  | .worker nE => closerStep state nE

/-- A pool as it was allocated, whose dispatcher and workers have not begun. -/
def startWaiting (n : ℕ) : WaitRun n where
  pool := allocatedPool n
  mtx := false
  dispatcher := .idle
  worker := fun _ ↦ .outside
  missed := fun _ ↦ false

/-- The worker is between its store of `used` and its signal. -/
def Pending (state : WaitRun n) (nE : Fin n) : Prop :=
  state.worker nE = .releasing ∨ state.worker nE = .signalling

instance decidablePending (state : WaitRun n) (nE : Fin n) : Decidable (Pending state nE) :=
  inferInstanceAs (Decidable (_ ∨ _))

/-- The dispatcher does not sleep next to a free slot: while it waits and no worker is about to
signal, every slot is taken. -/
def Awake (state : WaitRun n) : Prop :=
  state.dispatcher = .waiting → (∀ nE, ¬ Pending state nE) → ∀ nE, (state.pool.arr nE).used = 1

/-- Whether a dispatcher is awake can be evaluated. -/
instance decidableAwake (state : WaitRun n) : Decidable (Awake state) :=
  inferInstanceAs (Decidable (_ → _ → _))

/-- The dispatcher enters the wait only when it has missed no signal for a slot that it has tested,
or a worker is still to signal. -/
def SignalAhead (state : WaitRun n) : WaitAction n → Prop
  | .dispatcher => state.dispatcher = .entering →
      (∃ nE, Pending state nE) ∨ ∀ nE, state.missed nE = false
  | .worker _ => True

/-- The guard can be evaluated. -/
instance decidableSignalAhead (state : WaitRun n) (action : WaitAction n) :
    Decidable (SignalAhead state action) :=
  match action with
  | .dispatcher => inferInstanceAs (Decidable (_ → _ ∨ _))
  | .worker _ => inferInstanceAs (Decidable True)

/-! ### The scan and the signals -/

/-- The dispatcher is in a scan, or enters the wait after it. -/
def scanning : DispatcherPlace n → Bool
  | .testing _ | .entering => true
  | _ => false

/-- What the steps keep: the flags have their two values, the missed slots are free ones that the
scan has passed, and every other free slot that it has passed has a worker that is still to signal.
-/
structure Covered (state : WaitRun n) : Prop where
  e_lt : state.pool.e < n
  used : ∀ nE, (state.pool.arr nE).used = 1 ∨ isFree state.pool nE = true
  missed : ∀ nE, scanning state.dispatcher = true → state.missed nE = true →
    passed state nE = true ∧ isFree state.pool nE = true
  free : ∀ nE, passed state nE = true → isFree state.pool nE = true →
    Pending state nE ∨ state.missed nE = true

theorem isFree_storeUsed_self (pool : PoolT n) (nE : Fin n) (used : ℤ) :
    isFree (storeUsed pool nE used) nE = (used == -1) := by
  simp only [isFree, storeUsed, Function.update_self]

theorem isFree_storeUsed_of_ne (pool : PoolT n) {nE other : Fin n} (hne : other ≠ nE) (used : ℤ) :
    isFree (storeUsed pool nE used) other = isFree pool other := by
  simp only [isFree, storeUsed, Function.update_of_ne hne]

theorem used_ne_of_isFree {pool : PoolT n} {nE : Fin n} (hfree : isFree pool nE = true) :
    (pool.arr nE).used ≠ 1 := by
  intro hused
  rw [isFree, hused] at hfree
  exact absurd hfree (by decide)

/-- Storing one of the two values keeps the flags at these. -/
theorem used_storeUsed {pool : PoolT n} {nE : Fin n} {value : ℤ} (hvalue : value = 1 ∨ value = -1)
    (hused : ∀ other, (pool.arr other).used = 1 ∨ isFree pool other = true) (other : Fin n) :
    ((storeUsed pool nE value).arr other).used = 1 ∨
      isFree (storeUsed pool nE value) other = true := by
  by_cases heq : other = nE
  · subst heq
    rw [isFree_storeUsed_self, beq_iff_eq]
    simp only [storeUsed, Function.update_self]
    exact hvalue
  · rw [isFree_storeUsed_of_ne _ heq]
    simp only [storeUsed, Function.update_of_ne heq]
    exact hused other

variable [NeZero n]

theorem covered_start : Covered (startWaiting n) where
  e_lt := Nat.pos_of_neZero n
  used := fun _ ↦ Or.inr rfl
  missed := fun _ hscanning ↦ absurd hscanning Bool.false_ne_true
  free := fun _ hpassed ↦ absurd hpassed Bool.false_ne_true

/-- A slot that was found taken is passed, and it is not free. -/
theorem covered_tested {state : WaitRun n} {i : ℕ} (hinv : Covered state)
    (hplace : state.dispatcher = .testing i)
    (htaken : ¬ isFree state.pool (slotAt n state.pool.e i) = true) :
    Covered { state with dispatcher := .testing (i + 1) } := by
  -- The slot that was just tested is taken, and the others were passed before.
  have hbefore : ∀ nE, ahead state.pool.e nE < i + 1 → nE = slotAt n state.pool.e i ∨
      passed state nE = true := by
    intro nE hnE
    rcases Nat.lt_succ_iff_lt_or_eq.mp hnE with hlt | heq
    · exact Or.inr (by simp [passed, hplace, hlt])
    · exact Or.inl (by rw [← heq, slotAt_ahead hinv.e_lt])
  refine { hinv with missed := fun nE _ hmissed ↦ ?_, free := fun nE hpassed hnE ↦ ?_ }
  · obtain ⟨hbehind, hnE⟩ := hinv.missed nE (by rw [hplace]; rfl) hmissed
    rw [passed, hplace, decide_eq_true_eq] at hbehind
    exact ⟨by simp [passed, Nat.lt_succ_of_lt hbehind], hnE⟩
  · rcases hbefore nE (by simpa [passed] using hpassed) with heq | hpassed
    · rw [heq] at hnE
      exact absurd hnE htaken
    · exact hinv.free nE hpassed hnE

/-- The steps of the dispatcher: it passes a slot that it has found taken. -/
theorem covered_dispatcherStep {state next : WaitRun n} (hinv : Covered state)
    (hstep : dispatcherStep state = some next) : Covered next := by
  unfold dispatcherStep at hstep
  cases hplace : state.dispatcher with
  | idle =>
    simp only [hplace, Option.some.injEq] at hstep
    subst hstep
    exact { hinv with missed := by simp, free := by simp [passed] }
  | testing i =>
    simp only [hplace] at hstep
    split_ifs at hstep with hi hfree hmtx
    · rw [Option.some.injEq] at hstep
      subst hstep
      exact ⟨Nat.mod_lt _ (Nat.pos_of_neZero n), hinv.used, by simp [scanning], by simp [passed]⟩
    · rw [Option.some.injEq] at hstep
      subst hstep
      exact covered_tested hinv hplace hfree
    · rw [Option.some.injEq] at hstep
      subst hstep
      have hall : ∀ nE, passed state nE = true := by
        intro nE
        have hlt := ahead_lt state.pool.e nE
        simp only [passed, hplace, decide_eq_true_eq]
        omega
      exact { hinv with
        missed := fun nE _ hmissed ↦
          ⟨rfl, (hinv.missed nE (by rw [hplace]; rfl) hmissed).2⟩
        free := fun nE _ ↦ hinv.free nE (hall nE) }
  | entering =>
    simp only [hplace, Option.some.injEq] at hstep
    subst hstep
    exact { hinv with missed := by simp [scanning], free := by simp [passed] }
  | waiting => simp [hplace] at hstep
  | woken =>
    simp only [hplace] at hstep
    split_ifs at hstep
    rw [Option.some.injEq] at hstep
    subst hstep
    exact { hinv with missed := by simp [scanning], free := by simp [passed] }
  | resumed =>
    simp only [hplace, Option.some.injEq] at hstep
    subst hstep
    exact { hinv with missed := by simp, free := by simp [passed] }
  | found nE =>
    simp only [hplace, Option.some.injEq] at hstep
    subst hstep
    exact ⟨hinv.e_lt, used_storeUsed (Or.inl rfl) hinv.used, by simp [scanning], by simp [passed]⟩

omit [NeZero n] in
/-- Which slots the scan has passed depends on the place of the dispatcher only, and a dispatcher
that a signal has woken has passed none. -/
theorem passed_signalled {state next : WaitRun n} (he : next.pool.e = state.pool.e)
    (hplace : next.dispatcher = signalled state.dispatcher) (nE : Fin n) :
    passed next nE = passed state nE := by
  unfold passed
  rw [hplace, he]
  unfold signalled
  split_ifs with hwaiting
  · rw [hwaiting]
  · rfl

omit [NeZero n] in
theorem scanning_signalled (place : DispatcherPlace n) :
    scanning (signalled place) = scanning place := by
  unfold signalled
  split_ifs with hwaiting
  · rw [hwaiting]
    rfl
  · rfl

/-- What a step of a worker is, by the place of the worker. -/
inductive CloserMove (state : WaitRun n) (nE : Fin n) : WaitRun n → Prop
  | released (hplace : state.worker nE = .outside) (hused : (state.pool.arr nE).used = 1) :
      CloserMove state nE { state with
        pool := storeUsed state.pool nE (-1)
        worker := Function.update state.worker nE .releasing }
  | locked (hplace : state.worker nE = .releasing) :
      CloserMove state nE { state with
        mtx := true
        worker := Function.update state.worker nE .signalling }
  | signalled (hplace : state.worker nE = .signalling) :
      CloserMove state nE { state with
        dispatcher := signalled state.dispatcher
        worker := Function.update state.worker nE .unlocking
        missed := Function.update state.missed nE
          (state.missed nE || (passed state nE && isFree state.pool nE)) }
  | unlocked (hplace : state.worker nE = .unlocking) :
      CloserMove state nE { state with
        mtx := false
        worker := Function.update state.worker nE .outside }

omit [NeZero n] in
theorem closerMove_of_closerStep {state next : WaitRun n} {nE : Fin n}
    (hstep : closerStep state nE = some next) : CloserMove state nE next := by
  unfold closerStep at hstep
  cases hplace : state.worker nE with
  | outside =>
    simp only [hplace] at hstep
    split_ifs at hstep with hused
    rw [Option.some.injEq] at hstep
    exact hstep ▸ .released hplace hused
  | releasing =>
    simp only [hplace] at hstep
    split_ifs at hstep
    rw [Option.some.injEq] at hstep
    exact hstep ▸ .locked hplace
  | signalling =>
    simp only [hplace, Option.some.injEq] at hstep
    exact hstep ▸ .signalled hplace
  | unlocking =>
    simp only [hplace, Option.some.injEq] at hstep
    exact hstep ▸ .unlocked hplace

omit [NeZero n] in
/-- A slot that its worker has freed was taken before, so it was not missed, and now it is pending.
-/
theorem covered_released {state : WaitRun n} {nE : Fin n} (hinv : Covered state)
    (hused : (state.pool.arr nE).used = 1) :
    Covered { state with
      pool := storeUsed state.pool nE (-1)
      worker := Function.update state.worker nE .releasing } := by
  refine ⟨hinv.e_lt, used_storeUsed (Or.inr rfl) hinv.used, ?_, ?_⟩
  · intro other hscanning hmissed
    obtain ⟨hpassed, hfree⟩ := hinv.missed other hscanning hmissed
    refine ⟨hpassed, ?_⟩
    by_cases heq : other = nE
    · rw [heq] at hfree
      exact absurd hused (used_ne_of_isFree hfree)
    · rw [isFree_storeUsed_of_ne _ heq]
      exact hfree
  · intro other hpassed hfree
    by_cases heq : other = nE
    · rw [heq]
      exact Or.inl (Or.inl (Function.update_self ..))
    · rw [isFree_storeUsed_of_ne _ heq] at hfree
      simp only [Pending, Function.update_of_ne heq]
      exact hinv.free other hpassed hfree

omit [NeZero n] in
/-- A signal is noted as missed when the scan has passed the slot. -/
theorem covered_signalled {state next : WaitRun n} {nE : Fin n} (hinv : Covered state)
    (hnext : next = { state with
      dispatcher := signalled state.dispatcher
      worker := Function.update state.worker nE .unlocking
      missed := Function.update state.missed nE
        (state.missed nE || (passed state nE && isFree state.pool nE)) }) : Covered next := by
  have hkept := @passed_signalled n state next (by rw [hnext]) (by rw [hnext])
  subst hnext
  refine ⟨hinv.e_lt, hinv.used, ?_, ?_⟩
  · intro other hscanning hmissed
    rw [hkept]
    rw [scanning_signalled] at hscanning
    change Function.update state.missed nE _ other = true at hmissed
    by_cases heq : other = nE
    · subst heq
      rw [Function.update_self, Bool.or_eq_true, Bool.and_eq_true] at hmissed
      rcases hmissed with hmissed | hfree
      · exact hinv.missed other hscanning hmissed
      · exact hfree
    · rw [Function.update_of_ne heq] at hmissed
      exact hinv.missed other hscanning hmissed
  · intro other hpassed hfree
    rw [hkept] at hpassed
    by_cases heq : other = nE
    · subst heq
      refine Or.inr ?_
      show Function.update state.missed other _ other = true
      rw [Function.update_self, hpassed, show isFree state.pool other = true from hfree]
      exact Bool.or_true _
    · simp only [Pending, Function.update_of_ne heq]
      exact hinv.free other hpassed hfree

omit [NeZero n] in
/-- A worker behind its signal is not about to signal. -/
theorem ne_of_pending {state : WaitRun n} {nE other : Fin n}
    (hplace : state.worker nE = .unlocking) (hpending : Pending state other) : other ≠ nE := by
  rintro rfl
  rw [Pending, hplace] at hpending
  simp at hpending

omit [NeZero n] in
/-- The steps of a worker: it is still to signal for the slot that it has freed, or the signal is
noted when the scan has passed the slot. -/
theorem covered_closerStep {state next : WaitRun n} {nE : Fin n} (hinv : Covered state)
    (hstep : closerStep state nE = some next) : Covered next := by
  cases closerMove_of_closerStep hstep with
  | released hplace hused => exact covered_released hinv hused
  | locked hplace =>
    refine { hinv with free := fun other hpassed hfree ↦ ?_ }
    by_cases heq : other = nE
    · rw [heq]
      exact Or.inl (Or.inr (Function.update_self ..))
    · simp only [Pending, Function.update_of_ne heq]
      exact hinv.free other hpassed hfree
  | signalled hplace => exact covered_signalled hinv rfl
  | unlocked hplace =>
    refine { hinv with free := fun other hpassed hfree ↦ ?_ }
    rcases hinv.free other hpassed hfree with hpending | hmissed
    · simp only [Pending, Function.update_of_ne (ne_of_pending hplace hpending)]
      exact Or.inl hpending
    · exact Or.inr hmissed

/-! ### A dispatcher that sleeps -/

/-- The dispatcher comes into the wait from `entering` only. -/
theorem entering_of_dispatcherStep {state next : WaitRun n}
    (hstep : dispatcherStep state = some next) (hwaiting : next.dispatcher = .waiting) :
    state.dispatcher = .entering := by
  unfold dispatcherStep at hstep
  cases hplace : state.dispatcher with
  | entering => rfl
  | waiting => simp [hplace] at hstep
  | testing i =>
    simp only [hplace] at hstep
    split_ifs at hstep
    · rw [Option.some.injEq] at hstep
      simp [← hstep] at hwaiting
    · rw [Option.some.injEq] at hstep
      simp [← hstep] at hwaiting
    · rw [Option.some.injEq] at hstep
      simp [← hstep] at hwaiting
  | woken =>
    simp only [hplace] at hstep
    split_ifs at hstep
    rw [Option.some.injEq] at hstep
    simp [← hstep] at hwaiting
  | _ =>
    simp only [hplace, Option.some.injEq] at hstep
    simp [← hstep] at hwaiting

omit [NeZero n] in
/-- When the dispatcher enters the wait it is awake exactly if a signal is ahead or none was missed:
it has passed every slot. -/
theorem awake_entering {state : WaitRun n} (hinv : Covered state)
    (hplace : state.dispatcher = .entering) :
    Awake { state with mtx := false, dispatcher := .waiting } ↔
      (∃ nE, Pending state nE) ∨ ∀ nE, state.missed nE = false := by
  have hall : ∀ nE, passed state nE = true := fun nE ↦ by rw [passed, hplace]
  constructor
  · intro hawake
    by_contra hneither
    rw [not_or, not_exists] at hneither
    obtain ⟨hnone, hmissed⟩ := hneither
    refine hmissed fun nE ↦ Bool.eq_false_iff.mpr fun htrue ↦ ?_
    obtain ⟨-, hfree⟩ := hinv.missed nE (by rw [hplace]; rfl) htrue
    exact used_ne_of_isFree hfree (hawake rfl hnone nE)
  · rintro (⟨nE, hpending⟩ | hmissed) - hnone nE'
    · exact absurd hpending (hnone nE)
    · rcases hinv.used nE' with hused | hfree
      · exact hused
      · rcases hinv.free nE' (hall nE') hfree with hpending | htrue
        · exact absurd hpending (hnone nE')
        · rw [hmissed nE'] at htrue
          exact absurd htrue Bool.false_ne_true

omit [NeZero n] in
/-- A worker does not put the dispatcher to sleep: the slot that it frees is followed by a signal,
and the signal ends the wait. -/
theorem awake_closerStep {state next : WaitRun n} {nE : Fin n} (hawake : Awake state)
    (hstep : closerStep state nE = some next) : Awake next := by
  intro hwaiting hnone
  cases closerMove_of_closerStep hstep with
  | released hplace hused => exact absurd (Or.inl (Function.update_self ..)) (hnone nE)
  | locked hplace => exact absurd (Or.inr (Function.update_self ..)) (hnone nE)
  | signalled hplace =>
    simp only [signalled] at hwaiting
    split_ifs at hwaiting with heq
    exact absurd hwaiting heq
  | unlocked hplace =>
    refine hawake hwaiting fun other hpending ↦ hnone other ?_
    simp only [Pending, Function.update_of_ne (ne_of_pending hplace hpending)]
    exact hpending

/-- The dispatcher is awake after a step exactly when it has not entered the wait with a signal
missed and none ahead. -/
theorem covered_step (state : WaitRun n) (action : WaitAction n) (next : WaitRun n)
    (hinv : Covered state) (hawake : Awake state) (hstep : waitStep state action = some next) :
    Covered next ∧ (Awake next ↔ SignalAhead state action) := by
  cases action with
  | dispatcher =>
    refine ⟨covered_dispatcherStep hinv hstep, ?_⟩
    by_cases hplace : state.dispatcher = .entering
    · have hnext : next = { state with mtx := false, dispatcher := .waiting } := by
        simp only [waitStep, dispatcherStep, hplace, Option.some.injEq] at hstep
        exact hstep.symm
      rw [hnext, awake_entering hinv hplace]
      exact ⟨fun hahead _ ↦ hahead, fun hguard ↦ hguard hplace⟩
    · refine iff_of_true (fun hwaiting ↦ ?_) fun hentering ↦ absurd hentering hplace
      exact absurd (entering_of_dispatcherStep hstep hwaiting) hplace
  | worker nE =>
    exact ⟨covered_closerStep hinv hstep, iff_of_true (awake_closerStep hawake hstep) trivial⟩

/-- In every interleaving the dispatcher never sleeps next to a free slot if and only if it never
enters the wait with a signal missed and none ahead. -/
theorem awake_iff {actions : List (WaitAction n)} {final : WaitRun n}
    (hrun : run waitStep (startWaiting n) actions = some final) :
    Always waitStep Awake (startWaiting n) actions ↔
      Guarded waitStep SignalAhead (startWaiting n) actions :=
  always_iff_guarded covered_step covered_start (fun hwaiting ↦ by simp [startWaiting] at hwaiting)
    hrun

/-- The dispatcher takes the only slot and waits for it with the next connection. -/
def waitedTurn : List (WaitAction 1) :=
  List.replicate 7 .dispatcher ++ List.replicate 4 (.worker 0) ++ List.replicate 4 .dispatcher

theorem awake_waitedTurn :
    ∃ final, run waitStep (startWaiting 1) waitedTurn = some final ∧
      (Always waitStep Awake (startWaiting 1) waitedTurn ↔
        Guarded waitStep SignalAhead (startWaiting 1) waitedTurn) ∧
      Always waitStep Awake (startWaiting 1) waitedTurn := by
  obtain ⟨final, hrun⟩ := Option.isSome_iff_exists.mp
    (show (run waitStep (startWaiting 1) waitedTurn).isSome = true by decide +kernel)
  exact ⟨final, hrun, awake_iff hrun, (awake_iff hrun).mpr (by decide +kernel)⟩

/-- The only slot is freed, and its signal sent, when the dispatcher has just found it taken. -/
def lostSignal : List (WaitAction 1) :=
  List.replicate 5 .dispatcher ++ List.replicate 4 (.worker 0) ++ List.replicate 2 .dispatcher

/-- The dispatcher sleeps next to the free slot, and nobody can take another step. -/
theorem not_awake :
    (¬ ∀ (n : ℕ) [NeZero n] (actions : List (WaitAction n)) (final : WaitRun n),
      run waitStep (startWaiting n) actions = some final → Awake final) ∧
      ∃ final, run waitStep (startWaiting 1) lostSignal = some final ∧
        ∀ action, waitStep final action = none := by
  obtain ⟨final, hrun, hfinal⟩ := Option.map_eq_some_iff.mp
    (show (run waitStep (startWaiting 1) lostSignal).map (fun final ↦ (decide (Awake final),
      (waitStep final .dispatcher).isNone, (waitStep final (.worker 0)).isNone)) =
        some (false, true, true) by decide +kernel)
  rw [Prod.mk.injEq, Prod.mk.injEq, decide_eq_false_iff_not] at hfinal
  obtain ⟨hasleep, hdispatcher, hworker⟩ := hfinal
  refine ⟨fun hawake ↦ hasleep (hawake 1 lostSignal final hrun), final, hrun, fun action ↦ ?_⟩
  cases action with
  | dispatcher => exact Option.isNone_iff_eq_none.mp hdispatcher
  | worker nE =>
    rw [Subsingleton.elim nE 0]
    exact Option.isNone_iff_eq_none.mp hworker

/-! ### The scan is the one of `get_E` -/

/-- When no worker comes in between, the tests of the dispatcher find the slot that `get_E` returns
and leave the pool as it does. -/
theorem run_scan {state : WaitRun n} {nE : Fin n} {i left : ℕ}
    (hplace : state.dispatcher = .testing i) (hleft : i + left = n)
    (hscan : scan (isFree state.pool) state.pool.e i left = some nE) :
    ∃ tests, run waitStep state (List.replicate tests .dispatcher) =
      some { state with
        pool := { state.pool with e := (nE + 1) % n }
        dispatcher := .found nE } := by
  induction left generalizing i state with
  | zero => simp [scan] at hscan
  | succ left ih =>
    have hi : i < n := by omega
    rw [scan] at hscan
    split_ifs at hscan with hfree
    · rw [Option.some.injEq] at hscan
      subst hscan
      refine ⟨1, ?_⟩
      simp [run, waitStep, dispatcherStep, hplace, hi, hfree]
    · obtain ⟨tests, htests⟩ := @ih { state with dispatcher := .testing (i + 1) } (i + 1) rfl
        (by omega) hscan
      refine ⟨tests + 1, ?_⟩
      rw [List.replicate_succ, run_cons_eq_some]
      refine ⟨_, ?_, htests⟩
      simp [waitStep, dispatcherStep, hplace, hi, hfree]

/-- The scan of a dispatcher alone is `get_E`. -/
theorem run_getE {state : WaitRun n} {nE : Fin n} {pool : PoolT n}
    (hplace : state.dispatcher = .testing 0) (hget : getE state.pool = some (nE, pool)) :
    ∃ tests, run waitStep state (List.replicate tests .dispatcher) =
      some { state with pool := pool, dispatcher := .found nE } := by
  obtain ⟨hscan, rfl⟩ := getE_eq_some hget
  exact run_scan hplace (Nat.zero_add n) hscan

end ImageApp.Pools
