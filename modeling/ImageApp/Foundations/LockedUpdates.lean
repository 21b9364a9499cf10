import ImageApp.Foundations.LockPrograms

/-!
# Updates under a mutex

A thread that updates a shared variable loads its value, computes the new one, and stores it, and
other threads take steps in between. Here the writes of a `LockProgram` are made of these two steps,
and what an update computes is a function of the thread and of the variable.

`value_of_run` is about threads that pass the check of `LockPrograms`: in every interleaving, the
value of a variable is the one that the updates give when they are made one after the other in the
order of their stores. So no update is lost.
-/

set_option autoImplicit false
set_option relaxedAutoImplicit false

namespace ImageApp.Foundations.LockPrograms

open GuardedRuns

variable {ι Mutex Cond Var Value : Type*}

/-! ### Loads and stores -/

/-- Threads with the values of the variables, the values that threads have loaded for an update, and
the updates that were made, in the order of their stores. -/
structure UpdateSystem (ι Mutex Cond Var Value : Type*) where
  threads : ThreadSystem ι Mutex Cond Var
  value : Var → Value
  loaded : ι → Option Value
  made : List (ι × Var)

/-- A thread loads the variable that it is about to write, or it takes a step. -/
inductive UpdateAction (ι : Type*)
  | load (i : ι)
  | take (action : ThreadAction ι)

/-- The write that a step of the threads makes. -/
def writeOf (threads : ThreadSystem ι Mutex Cond Var) : ThreadAction ι → Option (ι × Var)
  | .advance i _ => (writing (threads.thread i)).map fun var ↦ (i, var)
  | .signal .. | .wake _ => none

section Step

variable [DecidableEq ι] [DecidableEq Mutex] [DecidableEq Cond] [Fintype ι] [DecidableEq Var]
  (update : ι → Var → Value → Value)

/-- A step. A write stores what the update makes of the value that was loaded for it. -/
def updateStep (system : UpdateSystem ι Mutex Cond Var Value) :
    UpdateAction ι → Option (UpdateSystem ι Mutex Cond Var Value)
  | .load i =>
    (writing (system.threads.thread i)).map fun var ↦
      { system with loaded := Function.update system.loaded i (some (system.value var)) }
  | .take action =>
    (step system.threads action).bind fun threads ↦
      match writeOf system.threads action with
      | none => some { system with threads := threads }
      | some (i, var) =>
        (system.loaded i).map fun old ↦
          { threads := threads
            value := Function.update system.value var (update i var old)
            loaded := Function.update system.loaded i none
            made := system.made ++ [(i, var)] }

/-- All threads are at the start of their programs. -/
def startUpdates (program : ι → LockProgram Mutex Cond Var) (value : Var → Value) :
    UpdateSystem ι Mutex Cond Var Value where
  threads := startSystem program
  value := value
  loaded := fun _ ↦ none
  made := []

/-- The value of a variable after some updates, one after the other. -/
def valueAfter (initial : Var → Value) (made : List (ι × Var)) (var : Var) : Value :=
  (made.filter fun done ↦ done.2 = var).foldl (fun value done ↦ update done.1 var value)
    (initial var)

omit [DecidableEq ι] [Fintype ι] in
theorem valueAfter_concat (initial : Var → Value) (made : List (ι × Var)) (i : ι)
    (var other : Var) :
    valueAfter update initial (made ++ [(i, var)]) other =
      if var = other then update i var (valueAfter update initial made other)
      else valueAfter update initial made other := by
  rw [valueAfter, List.filter_append, List.foldl_append]
  by_cases hvar : var = other
  · subst hvar
    simp [valueAfter]
  · simp [valueAfter, hvar]

end Step

/-! ### What other threads leave alone -/

section Frame

variable [DecidableEq ι] [DecidableEq Mutex] [DecidableEq Cond] [Fintype ι]
  {threads threads' : ThreadSystem ι Mutex Cond Var}

omit [DecidableEq Mutex] [DecidableEq Cond] in
/-- A thread that is about to write does not wait. -/
theorem not_waitsOn_of_writing {state : ThreadState Mutex Cond Var} {var : Var} {cond : Cond}
    (hwriting : writing state = some var) : ¬ WaitsOn cond state := by
  cases state with
  | running rest => exact id
  | waiting other mutex rest => simp [writing] at hwriting

/-- A thread that is about to write stays there until it writes. -/
theorem thread_eq_of_writing {action : ThreadAction ι} {j : ι} {var : Var}
    (hstep : step threads action = some threads') (hj : writing (threads.thread j) = some var)
    (hother : ∀ done ∈ writeOf threads action, done.1 ≠ j) :
    threads'.thread j = threads.thread j := by
  cases action with
  | advance i first =>
    have hne : j ≠ i := by
      rintro rfl
      exact hother (j, var) (by rw [writeOf, hj]; rfl) rfl
    simp only [step] at hstep
    split at hstep
    · split_ifs at hstep
      rw [Option.some.injEq] at hstep
      rw [← hstep, ThreadSystem.setOwner_thread, ThreadSystem.set_thread,
        Function.update_of_ne hne]
    · split_ifs at hstep
      rw [Option.some.injEq] at hstep
      rw [← hstep, ThreadSystem.setOwner_thread, ThreadSystem.set_thread,
        Function.update_of_ne hne]
    · split_ifs at hstep
      rw [Option.some.injEq] at hstep
      rw [← hstep, ThreadSystem.setOwner_thread, ThreadSystem.set_thread,
        Function.update_of_ne hne]
    · obtain ⟨next, -, rfl⟩ := Option.map_eq_some_iff.mp hstep
      rw [ThreadSystem.set_thread, Function.update_of_ne hne]
    · simp at hstep
  | signal i waiter =>
    simp only [step] at hstep
    split at hstep
    · rename_i cond rest hthread
      have hne : j ≠ i := by
        rintro rfl
        rw [hthread] at hj
        simp [writing] at hj
      cases waiter with
      | none =>
        simp only at hstep
        split_ifs at hstep
        rw [Option.some.injEq] at hstep
        rw [← hstep, ThreadSystem.set_thread, Function.update_of_ne hne]
      | some k =>
        simp only at hstep
        split_ifs at hstep with hwaits
        rw [Option.some.injEq] at hstep
        have hk : j ≠ k := by
          rintro rfl
          exact not_waitsOn_of_writing hj hwaits
        rw [← hstep, ThreadSystem.set_thread, Function.update_of_ne hk, ThreadSystem.set_thread,
          Function.update_of_ne hne]
    · simp at hstep
  | wake i =>
    simp only [step] at hstep
    split at hstep
    · rename_i cond mutex rest hthread
      have hne : j ≠ i := by
        rintro rfl
        rw [hthread] at hj
        simp [writing] at hj
      rw [Option.some.injEq] at hstep
      rw [← hstep, ThreadSystem.set_thread, Function.update_of_ne hne]
    · simp at hstep

end Frame

/-! ### No update is lost -/

section Runs

variable [DecidableEq ι] [DecidableEq Mutex] [DecidableEq Cond] [Fintype ι] [DecidableEq Var]
  {guard : Var → Mutex} {update : ι → Var → Value → Value} {initial : Var → Value}

/-- The threads are disciplined, the variables have the values that the updates give one after the
other, and what a thread has loaded is still the value. -/
structure Linear (guard : Var → Mutex) (update : ι → Var → Value → Value) (initial : Var → Value)
    (system : UpdateSystem ι Mutex Cond Var Value) : Prop where
  disciplined : ∃ held, Disciplined guard system.threads held
  value_eq : ∀ var, system.value var = valueAfter update initial system.made var
  loaded_eq : ∀ i old, system.loaded i = some old →
    ∃ var, writing (system.threads.thread i) = some var ∧ old = system.value var

omit [DecidableEq ι] [DecidableEq Cond] [Fintype ι] [DecidableEq Var] in
/-- Two threads are not about to write the same variable. -/
theorem eq_of_writing_eq {threads : ThreadSystem ι Mutex Cond Var}
    (hdisciplined : ∃ held, Disciplined guard threads held) {i j : ι} {var : Var}
    (hi : writing (threads.thread i) = some var) (hj : writing (threads.thread j) = some var) :
    i = j := by
  obtain ⟨held, hdisciplined⟩ := hdisciplined
  obtain ⟨rest, hi⟩ := exists_of_writing hi
  obtain ⟨rest', hj⟩ := exists_of_writing hj
  exact eq_of_writing hdisciplined hi hj

/-- A step keeps the variables at the values of the updates. -/
theorem linear_step (system : UpdateSystem ι Mutex Cond Var Value) (action : UpdateAction ι)
    (system' : UpdateSystem ι Mutex Cond Var Value)
    (hlinear : Linear guard update initial system)
    (hstep : updateStep update system action = some system') :
    Linear guard update initial system' := by
  cases action with
  | load i =>
    obtain ⟨var, hwriting, rfl⟩ := Option.map_eq_some_iff.mp hstep
    refine { hlinear with loaded_eq := fun j old hj ↦ ?_ }
    dsimp only at hj ⊢
    by_cases hji : j = i
    · subst hji
      rw [Function.update_self, Option.some.injEq] at hj
      exact ⟨var, hwriting, hj.symm⟩
    · rw [Function.update_of_ne hji] at hj
      exact hlinear.loaded_eq j old hj
  | take action =>
    obtain ⟨threads, hthreads, hstep⟩ := Option.bind_eq_some_iff.mp hstep
    have hdisciplined : ∃ held, Disciplined guard threads held := by
      obtain ⟨held, hdisciplined⟩ := hlinear.disciplined
      exact disciplined_step hdisciplined hthreads
    cases hwrite : writeOf system.threads action with
    | none =>
      rw [hwrite, Option.some.injEq] at hstep
      rw [← hstep]
      refine ⟨hdisciplined, hlinear.value_eq, fun j old hj ↦ ?_⟩
      obtain ⟨var, hwriting, hold⟩ := hlinear.loaded_eq j old hj
      refine ⟨var, ?_, hold⟩
      show writing (threads.thread j) = some var
      rw [thread_eq_of_writing hthreads hwriting (by simp [hwrite]), hwriting]
    | some done =>
      obtain ⟨i, var⟩ := done
      rw [hwrite] at hstep
      obtain ⟨old, hold, rfl⟩ := Option.map_eq_some_iff.mp hstep
      have hwriting : writing (system.threads.thread i) = some var := by
        cases action with
        | advance k first =>
          obtain ⟨other, hother, heq⟩ := Option.map_eq_some_iff.mp hwrite
          rw [Prod.mk.injEq] at heq
          rw [← heq.1, ← heq.2, hother]
        | signal | wake => simp [writeOf] at hwrite
      -- The value that is stored is computed from the current one.
      have hcurrent : old = system.value var := by
        obtain ⟨other, hother, hvalue⟩ := hlinear.loaded_eq i old hold
        rw [hwriting, Option.some.injEq] at hother
        rw [hvalue, hother]
      refine ⟨hdisciplined, fun other ↦ ?_, fun j loaded hj ↦ ?_⟩
      · dsimp only
        rw [valueAfter_concat, ← hlinear.value_eq]
        by_cases hvar : var = other
        · subst hvar
          rw [if_pos rfl, Function.update_self, hcurrent]
        · rw [if_neg hvar, Function.update_of_ne (Ne.symm hvar)]
      · dsimp only at hj ⊢
        by_cases hji : j = i
        · subst hji
          rw [Function.update_self] at hj
          simp at hj
        · rw [Function.update_of_ne hji] at hj
          obtain ⟨other, hother, hvalue⟩ := hlinear.loaded_eq j loaded hj
          have hne : other ≠ var := by
            rintro rfl
            exact hji (eq_of_writing_eq hlinear.disciplined hother hwriting)
          refine ⟨other, ?_, ?_⟩
          · rw [thread_eq_of_writing hthreads hother, hother]
            intro done hdone
            rw [hwrite, Option.mem_some_iff] at hdone
            rw [← hdone]
            exact Ne.symm hji
          · rw [Function.update_of_ne hne, hvalue]

/-- No update of a thread that passes the check is lost: in every interleaving, the variables have
the values that the updates give when they are made one after the other. -/
theorem value_of_run {program : ι → LockProgram Mutex Cond Var}
    (hprogram : ∀ i, Balanced guard (program i)) {actions : List (UpdateAction ι)}
    {system : UpdateSystem ι Mutex Cond Var Value}
    (hrun : run (updateStep update) (startUpdates program initial) actions = some system)
    (var : Var) : system.value var = valueAfter update initial system.made var := by
  have hstart : Linear guard update initial
      (startUpdates program initial : UpdateSystem ι Mutex Cond Var Value) :=
    { disciplined := disciplined_of_run hprogram (run_nil ..)
      value_eq := fun _ ↦ rfl
      loaded_eq := fun _ _ hloaded ↦ by simp [startUpdates] at hloaded }
  exact (invariant_of_run linear_step hstart hrun).value_eq var

end Runs

end ImageApp.Foundations.LockPrograms
