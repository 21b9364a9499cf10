import ImageApp.Foundations.GuardedRuns
import Mathlib.Data.Fintype.Basic
import Mathlib.Logic.Function.Basic

/-!
# Threads that lock mutexes

What threads do to mutexes, condition variables and shared variables, with everything else left out:
a branch is a choice that can go either way, and a loop makes any number of rounds. `step` is one
step of one thread. Waiting gives the mutex back and takes it again after a signal or for no reason,
as the standard allows.

`heldAfter` is a check of a program from its text: no thread holds two mutexes, it waits with the
mutex that it holds and gives back what it holds, and every shared variable is written under the
mutex that guards it. `blocked_cases` and `eq_of_writing` say what this is good for, in every
interleaving of any number of threads: a thread that waits for a mutex waits for a thread that can
go on, and no two threads write a variable at the same time.
-/

set_option autoImplicit false
set_option relaxedAutoImplicit false

namespace ImageApp.Foundations.LockPrograms

open GuardedRuns

/-! ### Programs -/

/-- What a thread does to mutexes, condition variables and shared variables. -/
inductive LockProgram (Mutex Cond Var : Type*)
  | skip
  | lock (mutex : Mutex)
  | unlock (mutex : Mutex)
  | wait (cond : Cond) (mutex : Mutex)
  | signal (cond : Cond)
  | write (var : Var)
  | seq (first second : LockProgram Mutex Cond Var)
  | choice (first second : LockProgram Mutex Cond Var)
  | loop (body : LockProgram Mutex Cond Var)
  | forever (body : LockProgram Mutex Cond Var)

variable {ι Mutex Cond Var : Type*}

namespace LockProgram

/-- One program after another. -/
def block : List (LockProgram Mutex Cond Var) → LockProgram Mutex Cond Var
  | [] => .skip
  | first :: rest => .seq first (block rest)

/-- One of several programs. -/
def oneOf : List (LockProgram Mutex Cond Var) → LockProgram Mutex Cond Var
  | [] => .skip
  | [last] => last
  | first :: second :: rest => .choice first (oneOf (second :: rest))

/-- A program under a mutex. -/
def critical (mutex : Mutex) (body : LockProgram Mutex Cond Var) : LockProgram Mutex Cond Var :=
  block [.lock mutex, body, .unlock mutex]

end LockProgram

/-! ### Steps of the threads -/

/-- Where a thread is: it has a list of programs to run, or it waits on a condition variable. -/
inductive ThreadState (Mutex Cond Var : Type*)
  | running (rest : List (LockProgram Mutex Cond Var))
  | waiting (cond : Cond) (mutex : Mutex) (rest : List (LockProgram Mutex Cond Var))

/-- The owners of the mutexes, and the threads. -/
structure ThreadSystem (ι Mutex Cond Var : Type*) where
  owner : Mutex → Option ι
  thread : ι → ThreadState Mutex Cond Var

/-- A thread goes on, and takes the first way where there are two; it signals, and wakes one of
those that wait; or it wakes up. -/
inductive ThreadAction (ι : Type*)
  | advance (i : ι) (first : Bool)
  | signal (i : ι) (waiter : Option ι)
  | wake (i : ι)

/-- The programs that a thread has left after a step without a mutex. -/
def nextPrograms (first : Bool) :
    List (LockProgram Mutex Cond Var) → Option (List (LockProgram Mutex Cond Var))
  | .skip :: rest | .write _ :: rest => some rest
  | .seq p q :: rest => some (p :: q :: rest)
  | .choice p q :: rest => some ((if first then p else q) :: rest)
  | .loop p :: rest => some (if first then p :: .loop p :: rest else rest)
  | .forever p :: rest => some (p :: .forever p :: rest)
  | _ => none

/-- The thread waits on the condition variable. -/
def WaitsOn (cond : Cond) : ThreadState Mutex Cond Var → Prop
  | .waiting other _ _ => other = cond
  | .running _ => False

instance decidableWaitsOn [DecidableEq Cond] (cond : Cond) (state : ThreadState Mutex Cond Var) :
    Decidable (WaitsOn cond state) :=
  match state with
  | .waiting other _ _ => inferInstanceAs (Decidable (other = cond))
  | .running _ => inferInstanceAs (Decidable False)

/-- A thread that waits takes its mutex again. -/
def awake : ThreadState Mutex Cond Var → ThreadState Mutex Cond Var
  | .waiting _ mutex rest => .running (.lock mutex :: rest)
  | .running rest => .running rest

section Step

variable [DecidableEq ι] [DecidableEq Mutex] [DecidableEq Cond] [Fintype ι]

namespace ThreadSystem

variable (system : ThreadSystem ι Mutex Cond Var)

/-- A thread in another state. -/
def set (i : ι) (state : ThreadState Mutex Cond Var) : ThreadSystem ι Mutex Cond Var :=
  { system with thread := Function.update system.thread i state }

/-- A mutex with another owner. -/
def setOwner (mutex : Mutex) (i : Option ι) : ThreadSystem ι Mutex Cond Var :=
  { system with owner := Function.update system.owner mutex i }

omit [DecidableEq Mutex] [DecidableEq Cond] [Fintype ι] in
@[simp] theorem set_owner (i : ι) (state : ThreadState Mutex Cond Var) :
    (system.set i state).owner = system.owner := rfl

omit [DecidableEq Mutex] [DecidableEq Cond] [Fintype ι] in
@[simp] theorem set_thread (i : ι) (state : ThreadState Mutex Cond Var) :
    (system.set i state).thread = Function.update system.thread i state := rfl

omit [DecidableEq ι] [DecidableEq Cond] [Fintype ι] in
@[simp] theorem setOwner_owner (mutex : Mutex) (i : Option ι) :
    (system.setOwner mutex i).owner = Function.update system.owner mutex i := rfl

omit [DecidableEq ι] [DecidableEq Cond] [Fintype ι] in
@[simp] theorem setOwner_thread (mutex : Mutex) (i : Option ι) :
    (system.setOwner mutex i).thread = system.thread := rfl

end ThreadSystem

/-- A step. A mutex is locked when nobody owns it, and given back by its owner. A signal wakes one
of the threads that wait, if there is one. -/
def step (system : ThreadSystem ι Mutex Cond Var) :
    ThreadAction ι → Option (ThreadSystem ι Mutex Cond Var)
  | .advance i first =>
    match system.thread i with
    | .running (.lock mutex :: rest) =>
      if system.owner mutex = none then
        some ((system.set i (.running rest)).setOwner mutex (some i))
      else none
    | .running (.unlock mutex :: rest) =>
      if system.owner mutex = some i then
        some ((system.set i (.running rest)).setOwner mutex none)
      else none
    | .running (.wait cond mutex :: rest) =>
      if system.owner mutex = some i then
        some ((system.set i (.waiting cond mutex rest)).setOwner mutex none)
      else none
    | .running rest => (nextPrograms first rest).map fun next ↦ system.set i (.running next)
    | .waiting _ _ _ => none
  | .signal i waiter =>
    match system.thread i with
    | .running (.signal cond :: rest) =>
      match waiter with
      | none =>
        if ∀ j, ¬ WaitsOn cond (system.thread j) then some (system.set i (.running rest)) else none
      | some j =>
        if WaitsOn cond (system.thread j) then
          some ((system.set i (.running rest)).set j (awake (system.thread j)))
        else none
    | _ => none
  | .wake i =>
    match system.thread i with
    | .waiting _ mutex rest => some (system.set i (.running (.lock mutex :: rest)))
    | .running _ => none

/-- The thread can take a step. -/
def Enabled (system : ThreadSystem ι Mutex Cond Var) (i : ι) : Prop :=
  (∃ first, (step system (.advance i first)).isSome) ∨
    ∃ waiter, (step system (.signal i waiter)).isSome

end Step

/-! ### The check -/

variable [DecidableEq Mutex] (guard : Var → Mutex)

/-- The mutex that a thread holds after a program, from the one that it holds before. -/
def heldAfter : LockProgram Mutex Cond Var → Option Mutex → Option (Option Mutex)
  | .skip, held | .signal _, held => some held
  | .lock mutex, held => if held = none then some (some mutex) else none
  | .unlock mutex, held => if held = some mutex then some none else none
  | .wait _ mutex, held => if held = some mutex then some held else none
  | .write var, held => if held = some (guard var) then some held else none
  | .seq p q, held => (heldAfter p held).bind (heldAfter q)
  | .choice p q, held => if heldAfter p held = heldAfter q held then heldAfter p held else none
  | .loop p, held | .forever p, held => if heldAfter p held = some held then some held else none

/-- The mutex that a thread holds after a list of programs. -/
def heldAtEnd : List (LockProgram Mutex Cond Var) → Option Mutex → Option (Option Mutex)
  | [], held => some held
  | p :: rest, held => (heldAfter guard p held).bind (heldAtEnd rest)

variable {guard}

/-- A program that a thread without a mutex can run, and that leaves it without one. -/
def Balanced (guard : Var → Mutex) (p : LockProgram Mutex Cond Var) : Prop :=
  heldAfter guard p none = some none

theorem balanced_skip : Balanced guard (.skip : LockProgram Mutex Cond Var) :=
  rfl

theorem balanced_signal (cond : Cond) :
    Balanced guard (.signal cond : LockProgram Mutex Cond Var) :=
  rfl

theorem balanced_choice {p q : LockProgram Mutex Cond Var} (hp : Balanced guard p)
    (hq : Balanced guard q) : Balanced guard (.choice p q) := by
  rw [Balanced, heldAfter, hp, hq, if_pos rfl]

theorem balanced_loop {p : LockProgram Mutex Cond Var} (hp : Balanced guard p) :
    Balanced guard (.loop p) := by
  rw [Balanced, heldAfter, hp, if_pos rfl]

theorem balanced_forever {p : LockProgram Mutex Cond Var} (hp : Balanced guard p) :
    Balanced guard (.forever p) := by
  rw [Balanced, heldAfter, hp, if_pos rfl]

theorem balanced_block_nil : Balanced guard (.block [] : LockProgram Mutex Cond Var) :=
  rfl

theorem balanced_block_cons {p : LockProgram Mutex Cond Var}
    {rest : List (LockProgram Mutex Cond Var)} (hp : Balanced guard p)
    (hrest : Balanced guard (.block rest)) : Balanced guard (.block (p :: rest)) := by
  rw [Balanced, LockProgram.block, heldAfter, hp, Option.bind_some]
  exact hrest

theorem balanced_oneOf {programs : List (LockProgram Mutex Cond Var)}
    (hall : ∀ p ∈ programs, Balanced guard p) : Balanced guard (.oneOf programs) := by
  induction programs with
  | nil => rfl
  | cons first rest ih =>
    have hfirst := hall first List.mem_cons_self
    have hrest := ih fun p hp ↦ hall p (List.mem_cons_of_mem _ hp)
    cases rest with
    | nil => exact hfirst
    | cons second rest => exact balanced_choice hfirst hrest

/-- A program that keeps the mutex, under the mutex. -/
theorem balanced_critical {mutex : Mutex} {body : LockProgram Mutex Cond Var}
    (hbody : heldAfter guard body (some mutex) = some (some mutex)) :
    Balanced guard (.critical mutex body) := by
  simp [Balanced, LockProgram.critical, LockProgram.block, heldAfter, hbody]

theorem balanced_critical_wait (mutex : Mutex) (cond : Cond) :
    Balanced guard (.critical mutex (.wait cond mutex) : LockProgram Mutex Cond Var) :=
  balanced_critical (if_pos rfl)

theorem balanced_critical_signal (mutex : Mutex) (cond : Cond) :
    Balanced guard (.critical mutex (.signal cond) : LockProgram Mutex Cond Var) :=
  balanced_critical rfl

theorem balanced_critical_write {mutex : Mutex} {var : Var} (hguard : guard var = mutex) :
    Balanced guard (.critical mutex (.write var) : LockProgram Mutex Cond Var) :=
  balanced_critical (if_pos (by rw [hguard]))

/-- A step without a mutex keeps what the thread holds at its end. -/
theorem heldAtEnd_nextPrograms {rest next : List (LockProgram Mutex Cond Var)} {first : Bool}
    {held : Option Mutex} (hnext : nextPrograms first rest = some next)
    (hend : heldAtEnd guard rest held = some none) : heldAtEnd guard next held = some none := by
  match rest with
  | [] => simp [nextPrograms] at hnext
  | p :: rest =>
    rw [heldAtEnd] at hend
    cases p with
    | lock mutex | unlock mutex | wait cond mutex | signal cond => simp [nextPrograms] at hnext
    | skip =>
      rw [nextPrograms, Option.some.injEq] at hnext
      rw [← hnext]
      exact hend
    | write var =>
      rw [nextPrograms, Option.some.injEq] at hnext
      rw [heldAfter] at hend
      split_ifs at hend with hguard
      · rw [← hnext]
        exact hend
      · simp at hend
    | seq p q =>
      rw [nextPrograms, Option.some.injEq] at hnext
      rw [heldAfter, Option.bind_assoc] at hend
      rw [← hnext]
      exact hend
    | choice p q =>
      rw [nextPrograms, Option.some.injEq] at hnext
      rw [heldAfter] at hend
      split_ifs at hend with hsame
      · rw [← hnext, heldAtEnd]
        cases first with
        | true => exact hend
        | false =>
          rw [hsame] at hend
          exact hend
      · simp at hend
    | loop p =>
      rw [nextPrograms, Option.some.injEq] at hnext
      rw [heldAfter] at hend
      split_ifs at hend with hsame
      · rw [← hnext]
        cases first with
        | true => simpa [heldAtEnd, heldAfter, hsame] using hend
        | false => exact hend
      · simp at hend
    | forever p =>
      rw [nextPrograms, Option.some.injEq] at hnext
      rw [heldAfter] at hend
      split_ifs at hend with hsame
      · rw [← hnext]
        simpa [heldAtEnd, heldAfter, hsame] using hend
      · simp at hend

/-! ### Runs of checked threads -/

/-- A thread holds at most the given mutex, and what is left of its programs passes the check. -/
def Proper (guard : Var → Mutex) (held : Option Mutex) : ThreadState Mutex Cond Var → Prop
  | .running rest => heldAtEnd guard rest held = some none
  | .waiting _ mutex rest => held = none ∧ heldAtEnd guard rest (some mutex) = some none

/-- Every thread holds at most one mutex, the owners are those that hold one, and what is left of
the programs passes the check. -/
structure Disciplined (guard : Var → Mutex) (system : ThreadSystem ι Mutex Cond Var)
    (held : ι → Option Mutex) : Prop where
  owner_iff : ∀ i mutex, held i = some mutex ↔ system.owner mutex = some i
  proper : ∀ i, Proper guard (held i) (system.thread i)

/-- A thread that waits can be woken at any time. -/
theorem proper_awake {held : Option Mutex} {state : ThreadState Mutex Cond Var}
    (hproper : Proper guard held state) : Proper guard held (awake state) := by
  cases state with
  | running rest => exact hproper
  | waiting cond mutex rest =>
    obtain ⟨rfl, hend⟩ := hproper
    rw [awake, Proper, heldAtEnd, heldAfter, if_pos rfl]
    exact hend

section Runs

variable [DecidableEq ι] {system system' : ThreadSystem ι Mutex Cond Var}
  {held : ι → Option Mutex}

/-- A thread goes on, and keeps what it holds. -/
theorem Disciplined.set (hdisciplined : Disciplined guard system held) {i : ι}
    {state : ThreadState Mutex Cond Var} (hproper : Proper guard (held i) state) :
    Disciplined guard (system.set i state) held where
  owner_iff := hdisciplined.owner_iff
  proper := by
    intro j
    by_cases hj : j = i
    · rw [hj, ThreadSystem.set_thread, Function.update_self]
      exact hproper
    · rw [ThreadSystem.set_thread, Function.update_of_ne hj]
      exact hdisciplined.proper j

/-- A thread goes on, and gets a mutex that nobody owns. -/
theorem Disciplined.acquire (hdisciplined : Disciplined guard system held) {i : ι} {mutex : Mutex}
    {rest : List (LockProgram Mutex Cond Var)} (hfree : system.owner mutex = none)
    (hheld : held i = none) (hproper : Proper guard (some mutex) (.running rest)) :
    Disciplined guard ((system.set i (.running rest)).setOwner mutex (some i))
      (Function.update held i (some mutex)) where
  owner_iff := by
    intro j other
    rw [ThreadSystem.setOwner_owner, ThreadSystem.set_owner]
    by_cases hj : j = i
    · subst hj
      rw [Function.update_self]
      by_cases hother : other = mutex
      · subst hother
        simp
      · rw [Function.update_of_ne hother, ← hdisciplined.owner_iff, hheld]
        simp [Ne.symm hother]
    · rw [Function.update_of_ne hj]
      by_cases hother : other = mutex
      · subst hother
        rw [Function.update_self, hdisciplined.owner_iff, hfree]
        simp [Ne.symm hj]
      · rw [Function.update_of_ne hother]
        exact hdisciplined.owner_iff j other
  proper := by
    intro j
    rw [ThreadSystem.setOwner_thread, ThreadSystem.set_thread]
    by_cases hj : j = i
    · rw [hj, Function.update_self, Function.update_self]
      exact hproper
    · rw [Function.update_of_ne hj, Function.update_of_ne hj]
      exact hdisciplined.proper j

/-- A thread goes on, and gives its mutex back. -/
theorem Disciplined.release (hdisciplined : Disciplined guard system held) {i : ι} {mutex : Mutex}
    {state : ThreadState Mutex Cond Var} (howner : system.owner mutex = some i)
    (hproper : Proper guard none state) :
    Disciplined guard ((system.set i state).setOwner mutex none) (Function.update held i none) where
  owner_iff := by
    intro j other
    rw [ThreadSystem.setOwner_owner, ThreadSystem.set_owner]
    have hheld := (hdisciplined.owner_iff i mutex).mpr howner
    by_cases hj : j = i
    · subst hj
      rw [Function.update_self]
      by_cases hother : other = mutex
      · subst hother
        simp
      · rw [Function.update_of_ne hother, ← hdisciplined.owner_iff, hheld]
        simp [Ne.symm hother]
    · rw [Function.update_of_ne hj]
      by_cases hother : other = mutex
      · subst hother
        rw [Function.update_self, hdisciplined.owner_iff, howner]
        simp [Ne.symm hj]
      · rw [Function.update_of_ne hother]
        exact hdisciplined.owner_iff j other
  proper := by
    intro j
    rw [ThreadSystem.setOwner_thread, ThreadSystem.set_thread]
    by_cases hj : j = i
    · rw [hj, Function.update_self, Function.update_self]
      exact hproper
    · rw [Function.update_of_ne hj, Function.update_of_ne hj]
      exact hdisciplined.proper j

variable [DecidableEq Cond] [Fintype ι]

/-- A step of a thread keeps the discipline. -/
theorem disciplined_step {action : ThreadAction ι} (hdisciplined : Disciplined guard system held)
    (hstep : step system action = some system') : ∃ held', Disciplined guard system' held' := by
  cases action with
  | advance i first =>
    have hproper := hdisciplined.proper i
    simp only [step] at hstep
    split at hstep
    · rename_i mutex rest hthread
      rw [hthread, Proper, heldAtEnd, heldAfter] at hproper
      split_ifs at hstep with hfree
      split_ifs at hproper with hnone
      · rw [Option.some.injEq] at hstep
        exact ⟨_, hstep ▸ hdisciplined.acquire hfree hnone hproper⟩
      · simp at hproper
    · rename_i mutex rest hthread
      rw [hthread, Proper, heldAtEnd, heldAfter] at hproper
      split_ifs at hstep with howner
      split_ifs at hproper with hheld
      · rw [Option.some.injEq] at hstep
        have hrest : Proper guard none (.running rest) := hproper
        exact ⟨_, hstep ▸ hdisciplined.release howner hrest⟩
      · simp at hproper
    · rename_i cond mutex rest hthread
      rw [hthread, Proper, heldAtEnd, heldAfter] at hproper
      split_ifs at hstep with howner
      split_ifs at hproper with hheld
      · rw [Option.some.injEq] at hstep
        rw [hheld, Option.bind_some] at hproper
        have hrest : Proper guard none (.waiting cond mutex rest) := ⟨rfl, hproper⟩
        exact ⟨_, hstep ▸ hdisciplined.release howner hrest⟩
      · simp at hproper
    · rename_i rest hlock hunlock hwait hthread
      obtain ⟨next, hnext, rfl⟩ := Option.map_eq_some_iff.mp hstep
      rw [hthread] at hproper
      exact ⟨held, hdisciplined.set (heldAtEnd_nextPrograms hnext hproper)⟩
    · simp at hstep
  | signal i waiter =>
    have hproper := hdisciplined.proper i
    simp only [step] at hstep
    split at hstep
    · rename_i cond rest hthread
      rw [hthread] at hproper
      have hsignalled : Disciplined guard (system.set i (.running rest)) held :=
        hdisciplined.set hproper
      cases waiter with
      | none =>
        simp only at hstep
        split_ifs at hstep
        rw [Option.some.injEq] at hstep
        exact ⟨held, hstep ▸ hsignalled⟩
      | some j =>
        simp only at hstep
        split_ifs at hstep
        rw [Option.some.injEq] at hstep
        exact ⟨held, hstep ▸ hsignalled.set (proper_awake (hdisciplined.proper j))⟩
    · simp at hstep
  | wake i =>
    have hproper := proper_awake (hdisciplined.proper i)
    simp only [step] at hstep
    split at hstep
    · rename_i cond mutex rest hthread
      rw [Option.some.injEq] at hstep
      rw [hthread] at hproper
      exact ⟨held, hstep ▸ hdisciplined.set hproper⟩
    · simp at hstep

/-- A thread of a disciplined system can go on, unless it is at its end or wants a mutex. -/
theorem Disciplined.enabled (hdisciplined : Disciplined guard system held) {i : ι}
    {p : LockProgram Mutex Cond Var} {rest : List (LockProgram Mutex Cond Var)}
    (hthread : system.thread i = .running (p :: rest)) (hlock : ∀ mutex, p ≠ .lock mutex) :
    Enabled system i := by
  have hproper := hdisciplined.proper i
  rw [hthread, Proper, heldAtEnd] at hproper
  cases p with
  | lock mutex => exact absurd rfl (hlock mutex)
  | unlock mutex =>
    rw [heldAfter] at hproper
    split_ifs at hproper with hheld
    · have howner := (hdisciplined.owner_iff i mutex).mp hheld
      exact Or.inl ⟨true, by simp [step, hthread, howner]⟩
    · simp at hproper
  | wait cond mutex =>
    rw [heldAfter] at hproper
    split_ifs at hproper with hheld
    · have howner := (hdisciplined.owner_iff i mutex).mp hheld
      exact Or.inl ⟨true, by simp [step, hthread, howner]⟩
    · simp at hproper
  | signal cond =>
    right
    by_cases hwaiter : ∃ j, WaitsOn cond (system.thread j)
    · obtain ⟨j, hj⟩ := hwaiter
      exact ⟨some j, by simp [step, hthread, hj]⟩
    · rw [not_exists] at hwaiter
      exact ⟨none, by simp [step, hthread, hwaiter]⟩
  | skip | write var | seq p q | choice p q | loop p | forever p =>
    exact Or.inl ⟨true, by simp [step, hthread, nextPrograms]⟩

/-- The owner of a mutex is never blocked. -/
theorem Disciplined.enabled_of_owner (hdisciplined : Disciplined guard system held) {mutex : Mutex}
    {i : ι} (howner : system.owner mutex = some i) : Enabled system i := by
  have hheld := (hdisciplined.owner_iff i mutex).mpr howner
  have hproper := hdisciplined.proper i
  rw [hheld] at hproper
  cases hthread : system.thread i with
  | waiting cond other rest =>
    rw [hthread, Proper] at hproper
    simp at hproper
  | running programs =>
    rw [hthread, Proper] at hproper
    cases programs with
    | nil => simp [heldAtEnd] at hproper
    | cons p rest =>
      apply hdisciplined.enabled hthread
      -- It does not want a second mutex.
      rintro other rfl
      simp [heldAtEnd, heldAfter] at hproper

/-- A thread of a disciplined system that cannot go on is at its end, waits on a condition variable,
or wants a mutex whose owner can go on. -/
theorem blocked_cases (hdisciplined : Disciplined guard system held) (i : ι) :
    Enabled system i ∨ system.thread i = .running [] ∨
      (∃ cond, WaitsOn cond (system.thread i)) ∨
      ∃ mutex rest j, system.thread i = .running (.lock mutex :: rest) ∧
        system.owner mutex = some j ∧ j ≠ i ∧ Enabled system j := by
  cases hthread : system.thread i with
  | waiting cond mutex rest => exact Or.inr (Or.inr (Or.inl ⟨cond, rfl⟩))
  | running programs =>
    cases programs with
    | nil => exact Or.inr (Or.inl rfl)
    | cons p rest =>
      by_cases hlock : ∃ mutex, p = .lock mutex
      · obtain ⟨mutex, rfl⟩ := hlock
        cases howner : system.owner mutex with
        | none => exact Or.inl (Or.inl ⟨true, by simp [step, hthread, howner]⟩)
        | some j =>
          refine Or.inr (Or.inr (Or.inr ⟨mutex, rest, j, rfl, howner, ?_,
            hdisciplined.enabled_of_owner howner⟩))
          rintro rfl
          have hheld := (hdisciplined.owner_iff j mutex).mpr howner
          have hproper := hdisciplined.proper j
          rw [hthread, hheld] at hproper
          simp [Proper, heldAtEnd, heldAfter] at hproper
      · rw [not_exists] at hlock
        exact Or.inl (hdisciplined.enabled hthread hlock)

/-- The variable that the thread is about to write. -/
def writing (state : ThreadState Mutex Cond Var) : Option Var :=
  match state with
  | .running (.write var :: _) => some var
  | _ => none

omit [DecidableEq Mutex] [DecidableEq Cond] in
/-- A thread that is about to write a variable has the write in front of it. -/
theorem exists_of_writing {state : ThreadState Mutex Cond Var} {var : Var}
    (hwriting : writing state = some var) : ∃ rest, state = .running (.write var :: rest) := by
  unfold writing at hwriting
  split at hwriting
  · rename_i other rest
    rw [Option.some.injEq] at hwriting
    exact ⟨rest, hwriting ▸ rfl⟩
  · simp at hwriting

omit [DecidableEq ι] [DecidableEq Cond] [Fintype ι] in
/-- A thread that is about to write a variable owns its mutex. -/
theorem owner_of_writing (hdisciplined : Disciplined guard system held) {i : ι} {var : Var}
    {rest : List (LockProgram Mutex Cond Var)}
    (hi : system.thread i = .running (.write var :: rest)) : system.owner (guard var) = some i := by
  have hproper := hdisciplined.proper i
  rw [hi, Proper, heldAtEnd, heldAfter] at hproper
  split_ifs at hproper with hheld
  · exact (hdisciplined.owner_iff i _).mp hheld
  · simp at hproper

omit [DecidableEq ι] [DecidableEq Cond] [Fintype ι] in
/-- Two threads that are about to write the same variable are the same. -/
theorem eq_of_writing (hdisciplined : Disciplined guard system held) {i j : ι} {var : Var}
    {rest rest' : List (LockProgram Mutex Cond Var)}
    (hi : system.thread i = .running (.write var :: rest))
    (hj : system.thread j = .running (.write var :: rest')) : i = j := by
  have hsame := (owner_of_writing hdisciplined hi).symm.trans (owner_of_writing hdisciplined hj)
  exact Option.some.inj hsame

/-! ### Threads that never end -/

/-- A loop without an end is left to do. -/
def Endless : ThreadState Mutex Cond Var → Prop
  | .running rest | .waiting _ _ rest => ∃ body, LockProgram.forever body ∈ rest

omit [DecidableEq Mutex] [DecidableEq Cond] in
theorem endless_nextPrograms {rest next : List (LockProgram Mutex Cond Var)} {first : Bool}
    (hnext : nextPrograms first rest = some next) (hendless : Endless (.running rest)) :
    Endless (.running next) := by
  obtain ⟨body, hbody⟩ := hendless
  match rest with
  | [] => simp at hbody
  | p :: rest =>
    cases p with
    | lock mutex | unlock mutex | wait cond mutex | signal cond => simp [nextPrograms] at hnext
    | skip | write var | seq p q | choice p q =>
      have hrest : .forever body ∈ rest := by simpa using hbody
      rw [nextPrograms, Option.some.injEq] at hnext
      exact ⟨body, by simp [← hnext, hrest]⟩
    | loop p =>
      have hrest : .forever body ∈ rest := by simpa using hbody
      rw [nextPrograms, Option.some.injEq] at hnext
      refine ⟨body, ?_⟩
      rw [← hnext]
      split_ifs
      · exact List.mem_cons_of_mem _ (List.mem_cons_of_mem _ hrest)
      · exact hrest
    | forever p =>
      rw [nextPrograms, Option.some.injEq] at hnext
      rw [← hnext]
      exact ⟨p, by simp⟩

omit [DecidableEq Mutex] [DecidableEq Cond] [Fintype ι] in
/-- A thread with a loop without an end goes on. -/
theorem endless_set (hendless : ∀ i, Endless (system.thread i)) {i : ι}
    {state : ThreadState Mutex Cond Var} (hstate : Endless state) (j : ι) :
    Endless ((system.set i state).thread j) := by
  rw [ThreadSystem.set_thread]
  by_cases hj : j = i
  · rw [hj, Function.update_self]
    exact hstate
  · rw [Function.update_of_ne hj]
    exact hendless j

omit [DecidableEq Mutex] [DecidableEq Cond] in
/-- What is left behind an operation on a mutex or a condition variable. -/
theorem endless_tail {p : LockProgram Mutex Cond Var} {rest : List (LockProgram Mutex Cond Var)}
    (hendless : Endless (.running (p :: rest))) (hp : ∀ body, p ≠ .forever body) :
    Endless (.running rest) := by
  obtain ⟨body, hbody⟩ := hendless
  rcases List.mem_cons.mp hbody with heq | hrest
  · exact absurd heq.symm (hp body)
  · exact ⟨body, hrest⟩

omit [DecidableEq Mutex] [DecidableEq Cond] in
theorem endless_awake {state : ThreadState Mutex Cond Var} (hendless : Endless state) :
    Endless (awake state) := by
  cases state with
  | running rest => exact hendless
  | waiting cond mutex rest =>
    obtain ⟨body, hbody⟩ := hendless
    exact ⟨body, List.mem_cons_of_mem _ hbody⟩

/-- No step takes a loop without an end away. -/
theorem endless_step {action : ThreadAction ι} (hendless : ∀ i, Endless (system.thread i))
    (hstep : step system action = some system') (j : ι) : Endless (system'.thread j) := by
  cases action with
  | advance i first =>
    have hthis := hendless i
    simp only [step] at hstep
    split at hstep
    · rename_i mutex rest hthread
      rw [hthread] at hthis
      split_ifs at hstep
      rw [Option.some.injEq] at hstep
      exact hstep ▸ endless_set hendless (endless_tail hthis (by simp)) j
    · rename_i mutex rest hthread
      rw [hthread] at hthis
      split_ifs at hstep
      rw [Option.some.injEq] at hstep
      exact hstep ▸ endless_set hendless (endless_tail hthis (by simp)) j
    · rename_i cond mutex rest hthread
      rw [hthread] at hthis
      split_ifs at hstep
      rw [Option.some.injEq] at hstep
      have hrest : Endless (.waiting cond mutex rest) := endless_tail hthis (by simp)
      exact hstep ▸ endless_set hendless hrest j
    · rename_i rest hlock hunlock hwait hthread
      obtain ⟨next, hnext, rfl⟩ := Option.map_eq_some_iff.mp hstep
      rw [hthread] at hthis
      exact endless_set hendless (endless_nextPrograms hnext hthis) j
    · simp at hstep
  | signal i waiter =>
    have hthis := hendless i
    simp only [step] at hstep
    split at hstep
    · rename_i cond rest hthread
      rw [hthread] at hthis
      have hsignalled : ∀ j, Endless ((system.set i (.running rest)).thread j) :=
        endless_set hendless (endless_tail hthis (by simp))
      cases waiter with
      | none =>
        simp only at hstep
        split_ifs at hstep
        rw [Option.some.injEq] at hstep
        exact hstep ▸ hsignalled j
      | some k =>
        simp only at hstep
        split_ifs at hstep
        rw [Option.some.injEq] at hstep
        exact hstep ▸ endless_set hsignalled (endless_awake (hendless k)) j
    · simp at hstep
  | wake i =>
    have hthis := endless_awake (hendless i)
    simp only [step] at hstep
    split at hstep
    · rename_i cond mutex rest hthread
      rw [Option.some.injEq] at hstep
      rw [hthread] at hthis
      exact hstep ▸ endless_set hendless hthis j
    · simp at hstep

/-! ### From the start -/

/-- Every thread is at the start of its program, and nobody owns a mutex. -/
def startSystem (program : ι → LockProgram Mutex Cond Var) : ThreadSystem ι Mutex Cond Var where
  owner := fun _ ↦ none
  thread := fun i ↦ .running [program i]

variable {program : ι → LockProgram Mutex Cond Var} {actions : List (ThreadAction ι)}

/-- Threads whose programs pass the check are disciplined all along. -/
theorem disciplined_of_run (hprogram : ∀ i, Balanced guard (program i))
    (hrun : run step (startSystem program) actions = some system) :
    ∃ held, Disciplined guard system held := by
  apply @invariant_of_run _ _ _ (fun system ↦ ∃ held, Disciplined guard system held) _ _ _ _ _
    hrun
  · rintro system action next ⟨held, hdisciplined⟩ hstep
    exact disciplined_step hdisciplined hstep
  · refine ⟨fun _ ↦ none, ?_⟩
    exact
      { owner_iff := fun i mutex ↦ by simp [startSystem]
        proper := fun i ↦ by
          rw [startSystem, Proper, heldAtEnd, hprogram i]
          rfl }

/-- Threads whose programs are loops without an end never come to their end. -/
theorem endless_of_run (hprogram : ∀ i, ∃ body, program i = .forever body)
    (hrun : run step (startSystem program) actions = some system) (i : ι) :
    Endless (system.thread i) := by
  have hendless : ∀ i, Endless ((startSystem program).thread i) := by
    intro i
    obtain ⟨body, hbody⟩ := hprogram i
    exact ⟨body, by simp [hbody]⟩
  exact @invariant_of_run _ _ _ (fun system ↦ ∀ i, Endless (system.thread i))
    (fun _ _ _ hendless hstep ↦ endless_step hendless hstep) _ _ _ hendless hrun i

end Runs

end ImageApp.Foundations.LockPrograms
