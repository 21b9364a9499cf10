import ImageApp.Foundations.GuardedRuns
import ImageApp.Server.HandleClient
import Mathlib.Data.Fintype.Card
import Mathlib.Data.List.Perm.Basic
import Mathlib.Data.List.Range

/-!
# The number of open connections

The accept loop counts every connection it accepts in `max_descriptor`, and a worker counts it back
when it closes it. A run interleaves accepted connections, their assignment to free workers, and
iterations of the workers; the kernel gives a new connection a descriptor that is not open, and
closing a descriptor that is not open does nothing. The connections are numbered in the order in
which they were accepted, and two logs keep the connection that a worker was serving when it called
`close` and when it decremented the counter.

`exact_of_guarded` says that the accounting is exact in every run in which no iteration answers for
a missing image. There the connection is closed and counted back in place, and the worker goes on to
its keep-alive timer as if the connection were still open.
-/

set_option autoImplicit false
set_option relaxedAutoImplicit false

namespace ImageApp.Connections

open Foundations.CStrings Foundations.GuardedRuns Server

variable {ι : Type*}

/-! ### Accepted connections and workers -/

/-- An open descriptor, with the number of its connection. -/
structure OpenConnection where
  connSd : Descriptor
  number : ℕ
  deriving DecidableEq

/-- The accept loop and its workers between two steps. -/
structure Service (ι : Type*) where
  workers : ι → Worker
  /-- The connection that a worker was assigned last. -/
  serving : ι → ℕ
  maxDescriptor : ℕ
  accepted : ℕ
  table : List OpenConnection
  unassigned : List OpenConnection
  closes : List ℕ
  decrements : List ℕ

/-- The service before the first connection; `main` sets `max_descriptor` to one. -/
def startedService : Service ι where
  workers := fun _ ↦ ⟨allocatedThread, 0⟩
  serving := fun _ ↦ 0
  maxDescriptor := 1
  accepted := 0
  table := []
  unassigned := []
  closes := []
  decrements := []

/-- What happens: a connection is accepted, an accepted connection is assigned to a worker, or a
worker goes once through its loop. The address of the client has no part in the accounting, so any
address may come with a connection. -/
inductive ServiceAction (ι : Type*)
  | accept (connSd : Descriptor)
  | dispatch (worker : ι) (connection : OpenConnection) (clientAddr : SockaddrIn)
  | serve (worker : ι) (input : IterationInput)

/-- What an effect of a worker does to the accounting. The counter is an unsigned 64-bit integer. -/
def applyEffect (worker : ι) (service : Service ι) : Effect → Service ι
  | .decrementMaxDescriptor =>
    { service with
      maxDescriptor := (service.maxDescriptor + (2 ^ 64 - 1)) % 2 ^ 64
      decrements := service.serving worker :: service.decrements }
  | .close connSd =>
    { service with
      table := service.table.filter fun connection ↦ connection.connSd ≠ connSd
      closes := service.serving worker :: service.closes }
  | _ => service

/-- A step of the service. -/
def serviceStep [DecidableEq ι] (service : Service ι) : ServiceAction ι → Option (Service ι)
  | .accept connSd =>
    if connSd ∈ service.table.map OpenConnection.connSd then none
    else
      some { service with
        maxDescriptor := (service.maxDescriptor + 1) % 2 ^ 64
        accepted := service.accepted + 1
        table := ⟨connSd, service.accepted⟩ :: service.table
        unassigned := ⟨connSd, service.accepted⟩ :: service.unassigned }
  | .dispatch worker connection clientAddr =>
    if connection ∈ service.unassigned ∧ (service.workers worker).td.used = -1 then
      some { service with
        workers := Function.update service.workers worker
          { service.workers worker with
            td := assignConnection (service.workers worker).td connection.connSd
              clientAddr }
        serving := Function.update service.serving worker connection.number
        unassigned := service.unassigned.erase connection }
    else none
  | .serve worker input =>
    if (service.workers worker).td.msgReceived = 1 then
      (iterate (service.workers worker) input).map fun served ↦
        served.2.foldl (applyEffect worker)
          { service with workers := Function.update service.workers worker served.1 }
    else none

/-- The accepted connections that were not closed yet. -/
def notYetClosed (service : Service ι) : List ℕ :=
  (List.range service.accepted).filter (· ∉ service.closes)

/-- The accounting is exact: no connection is closed twice, every close has its decrement, and the
counter is one more than the number of connections that were not closed yet. -/
structure Exact (service : Service ι) : Prop where
  closes_nodup : service.closes.Nodup
  decrements_eq : service.decrements = service.closes
  maxDescriptor_eq : service.maxDescriptor = 1 + (notYetClosed service).length

/-- The iteration answers for a missing image: a request was received in the budget, it asks for an
image, and the image cannot be found. -/
def answersMissingImage (worker : Worker) (input : IterationInput) : Bool :=
  worker.td.request ≠ 0 && !input.imagePresent &&
    match receiveRequest worker.nextMessage input.received with
    | .returned .requestReceived message _ =>
      match parseRequest message with
      | some (.requestReceived, _) => true
      | _ => false
    | _ => false

/-- No iteration answers for a missing image. -/
def FindsImages (service : Service ι) : ServiceAction ι → Prop
  | .serve worker input => answersMissingImage (service.workers worker) input = false
  | _ => True

instance decidableFindsImages (service : Service ι) (action : ServiceAction ι) :
    Decidable (FindsImages service action) :=
  match action with
  | .accept _ => inferInstanceAs (Decidable True)
  | .dispatch _ _ _ => inferInstanceAs (Decidable True)
  | .serve _ _ => inferInstanceAs (Decidable (_ = _))

/-! ### The effects of an iteration -/

/-- The other effects do not change the accounting. -/
theorem applyEffect_of_not_isAccounting (worker : ι) (service : Service ι) {effect : Effect}
    (heffect : ¬ isAccounting effect = true) : applyEffect worker service effect = service := by
  cases effect with
  | decrementMaxDescriptor => exact absurd rfl heffect
  | close connSd => exact absurd rfl heffect
  | _ => rfl

/-- Only the decrements and the closes among the effects matter. -/
theorem foldl_applyEffect_accounting (worker : ι) (service : Service ι) (effects : List Effect) :
    effects.foldl (applyEffect worker) service =
      (accounting effects).foldl (applyEffect worker) service := by
  induction effects generalizing service with
  | nil => rfl
  | cons effect effects ih =>
    rw [List.foldl_cons, ih, accounting, accounting]
    by_cases hcounts : isAccounting effect = true
    · rw [List.filter_cons_of_pos hcounts, List.foldl_cons]
    · rw [List.filter_cons_of_neg hcounts, applyEffect_of_not_isAccounting worker service hcounts]

/-- Counting a connection back and closing its descriptor. -/
def closeConnection (worker : ι) (connSd : Descriptor) (service : Service ι) : Service ι :=
  (closing connSd).foldl (applyEffect worker) service

/-- An iteration that finds its image closes the connection of its worker, or only changes the slot
of the worker. -/
theorem serve_cases [DecidableEq ι] {service service' : Service ι} {worker : ι}
    {input : IterationInput}
    (hguard : FindsImages service (.serve worker input))
    (hstep : serviceStep service (.serve worker input) = some service') :
    (service.workers worker).td.msgReceived = 1 ∧ ∃ served : Worker,
      served.td.connSd = (service.workers worker).td.connSd ∧
      ((served.td.used = -1 ∧ served.td.msgReceived = 0 ∧
        service' = closeConnection worker (service.workers worker).td.connSd
          { service with workers := Function.update service.workers worker served }) ∨
        (served.td.used = (service.workers worker).td.used ∧
          service' =
            { service with workers := Function.update service.workers worker served })) := by
  simp only [serviceStep, Option.ite_none_right_eq_some, Option.map_eq_some_iff] at hstep
  obtain ⟨hready, ⟨served, effects⟩, hrun, rfl⟩ := hstep
  refine ⟨hready, served, ?_⟩
  obtain ⟨status, message, hreceive, -, hconn, -, hend⟩ := iterate_cases hrun
  refine ⟨hconn, ?_⟩
  rw [foldl_applyEffect_accounting]
  rcases hend with ⟨hreceived, habsent, request, hparse⟩ | hclosed | hkept
  · have hbudget : (service.workers worker).td.request ≠ 0 := by
      intro hspent
      rw [effectiveStatus, if_pos hspent] at hreceived
      exact absurd hreceived (by decide)
    rw [effectiveStatus, if_neg hbudget] at hreceived
    subst hreceived
    have hanswers : answersMissingImage (service.workers worker) input = true := by
      simp [answersMissingImage, hbudget, habsent, hreceive, hparse]
    rw [FindsImages, hanswers] at hguard
    exact absurd hguard (by decide)
  · refine Or.inl ⟨hclosed.used_eq, hclosed.msgReceived_eq, ?_⟩
    rw [hclosed.accounting_eq]
    rfl
  · refine Or.inr ⟨hkept.used_eq, ?_⟩
    rw [hkept.accounting_eq]
    rfl

/-! ### The invariant -/

/-- The counter counts the open connections, the open and the closed connections are the accepted
ones, and every worker in use serves an open connection of its own. -/
structure Balanced (service : Service ι) : Prop where
  decrements_eq : service.decrements = service.closes
  maxDescriptor_eq : service.maxDescriptor = 1 + service.table.length
  connSd_nodup : (service.table.map OpenConnection.connSd).Nodup
  number_perm : (service.table.map OpenConnection.number ++ service.closes).Perm
    (List.range service.accepted)
  unassigned_nodup : service.unassigned.Nodup
  unassigned_subset : service.unassigned ⊆ service.table
  serving_mem : ∀ worker, (service.workers worker).td.used = 1 →
    ⟨(service.workers worker).td.connSd, service.serving worker⟩ ∈ service.table ∧
      ⟨(service.workers worker).td.connSd, service.serving worker⟩ ∉ service.unassigned
  serving_inj : ∀ first second, (service.workers first).td.used = 1 →
    (service.workers second).td.used = 1 → service.serving first = service.serving second →
      first = second
  used_of_msgReceived : ∀ worker, (service.workers worker).td.msgReceived = 1 →
    (service.workers worker).td.used = 1

namespace Balanced

variable {service : Service ι}

/-- There are fewer open connections than the counter can count. -/
theorem length_table_le (hbalanced : Balanced service) : service.table.length ≤ 2 ^ 31 := by
  have hle := hbalanced.connSd_nodup.length_le_card
  rwa [List.length_map, Fintype.card_fin] at hle

/-- The numbers of the open connections are distinct, and no closed connection is among them. -/
theorem number_nodup (hbalanced : Balanced service) :
    (service.table.map OpenConnection.number ++ service.closes).Nodup :=
  hbalanced.number_perm.nodup_iff.mpr List.nodup_range

/-- Open connections are told apart by their descriptors. -/
theorem eq_of_connSd_eq (hbalanced : Balanced service) {first second : OpenConnection}
    (hfirst : first ∈ service.table) (hsecond : second ∈ service.table)
    (heq : first.connSd = second.connSd) : first = second :=
  List.inj_on_of_nodup_map hbalanced.connSd_nodup hfirst hsecond heq

/-- Closing a descriptor removes the connection with it and no other one. -/
theorem perm_cons_filter (hbalanced : Balanced service) {closed : OpenConnection}
    (hopen : closed ∈ service.table) :
    service.table.Perm
      (closed :: service.table.filter fun connection ↦ connection.connSd ≠ closed.connSd) := by
  have hfilter : service.table.erase closed =
      service.table.filter fun connection ↦ connection.connSd ≠ closed.connSd := by
    rw [hbalanced.connSd_nodup.of_map.erase_eq_filter]
    apply List.filter_congr
    intro connection hmem
    by_cases heq : connection = closed
    · simp [heq]
    · have hne : connection.connSd ≠ closed.connSd :=
        fun hsame ↦ heq (hbalanced.eq_of_connSd_eq hmem hopen hsame)
      simp [heq, hne]
  exact hfilter ▸ List.perm_cons_erase hopen

/-- The other connections stay open. -/
theorem mem_filter_of_ne (hbalanced : Balanced service) {closed connection : OpenConnection}
    (hopen : closed ∈ service.table) (hmem : connection ∈ service.table)
    (hne : connection ≠ closed) :
    connection ∈ service.table.filter fun connection ↦ connection.connSd ≠ closed.connSd := by
  have hother : connection.connSd ≠ closed.connSd :=
    fun heq ↦ hne (hbalanced.eq_of_connSd_eq hmem hopen heq)
  exact List.mem_filter.mpr ⟨hmem, decide_eq_true hother⟩

/-- The counter is lowered by the one connection that is closed. -/
theorem maxDescriptor_close (hbalanced : Balanced service) {closed : OpenConnection}
    (hopen : closed ∈ service.table) :
    (service.maxDescriptor + (2 ^ 64 - 1)) % 2 ^ 64 =
      1 + (service.table.filter fun connection ↦ connection.connSd ≠ closed.connSd).length := by
  have hlength := (hbalanced.perm_cons_filter hopen).length_eq
  have hle := hbalanced.length_table_le
  rw [hbalanced.maxDescriptor_eq]
  rw [List.length_cons] at hlength
  omega

/-- The number of the closed connection goes over to the closes. -/
theorem number_perm_close (hbalanced : Balanced service) {closed : OpenConnection}
    (hopen : closed ∈ service.table) :
    ((service.table.filter fun connection ↦ connection.connSd ≠ closed.connSd).map
      OpenConnection.number ++ closed.number :: service.closes).Perm
        (List.range service.accepted) := by
  have hperm := (hbalanced.perm_cons_filter hopen).map OpenConnection.number
  refine List.perm_middle.trans (List.Perm.trans ?_ hbalanced.number_perm)
  exact (hperm.append_right service.closes).symm

/-- Open connections are told apart by their numbers. -/
theorem eq_of_number_eq (hbalanced : Balanced service) {first second : OpenConnection}
    (hfirst : first ∈ service.table) (hsecond : second ∈ service.table)
    (heq : first.number = second.number) : first = second :=
  List.inj_on_of_nodup_map (List.nodup_append.mp hbalanced.number_nodup).1 hfirst hsecond heq

end Balanced

/-- The service starts balanced. -/
theorem balanced_startedService : Balanced (startedService : Service ι) where
  decrements_eq := rfl
  maxDescriptor_eq := rfl
  connSd_nodup := List.nodup_nil
  number_perm := List.Perm.refl _
  unassigned_nodup := List.nodup_nil
  unassigned_subset := List.nil_subset _
  serving_mem := fun _ hused ↦ absurd (show (-1 : ℤ) = 1 from hused) (by decide)
  serving_inj := fun _ _ hused ↦ absurd (show (-1 : ℤ) = 1 from hused) (by decide)
  used_of_msgReceived := fun _ hready ↦ absurd (show (0 : ℤ) = 1 from hready) (by decide)

/-- Accepting a connection keeps the balance. -/
theorem balanced_accept [DecidableEq ι] {service service' : Service ι} {connSd : Descriptor}
    (hbalanced : Balanced service) (hstep : serviceStep service (.accept connSd) = some service') :
    Balanced service' := by
  simp only [serviceStep, Option.ite_none_left_eq_some, Option.some.injEq] at hstep
  obtain ⟨hfresh, rfl⟩ := hstep
  have hlength := hbalanced.length_table_le
  have hnew : ∀ connection ∈ service.table, connection ≠ ⟨connSd, service.accepted⟩ := by
    rintro connection hmem rfl
    exact hfresh (List.mem_map_of_mem hmem)
  refine
    { hbalanced with
      maxDescriptor_eq := ?_, connSd_nodup := ?_, number_perm := ?_, unassigned_nodup := ?_,
      unassigned_subset := ?_, serving_mem := ?_ }
  · show (service.maxDescriptor + 1) % 2 ^ 64 = 1 + (service.table.length + 1)
    rw [hbalanced.maxDescriptor_eq]
    omega
  · exact List.nodup_cons.mpr ⟨hfresh, hbalanced.connSd_nodup⟩
  · rw [List.range_succ, List.map_cons, List.cons_append]
    exact (hbalanced.number_perm.cons _).trans (List.perm_append_singleton _ _).symm
  · refine List.nodup_cons.mpr ⟨fun hmem ↦ ?_, hbalanced.unassigned_nodup⟩
    exact hnew _ (hbalanced.unassigned_subset hmem) rfl
  · exact List.cons_subset_cons _ hbalanced.unassigned_subset
  · intro worker hused
    obtain ⟨hopen, hassigned⟩ := hbalanced.serving_mem worker hused
    refine ⟨List.mem_cons_of_mem _ hopen, fun hmem ↦ ?_⟩
    rcases List.mem_cons.mp hmem with heq | hmem
    · exact hnew _ hopen heq
    · exact hassigned hmem

/-- Assigning an accepted connection to a free worker keeps the balance. -/
theorem balanced_dispatch [DecidableEq ι] {service service' : Service ι} {worker : ι}
    {connection : OpenConnection}
    {clientAddr : SockaddrIn} (hbalanced : Balanced service)
    (hstep : serviceStep service (.dispatch worker connection clientAddr) = some service') :
    Balanced service' := by
  simp only [serviceStep, Option.ite_none_right_eq_some, Option.some.injEq] at hstep
  obtain ⟨⟨hunassigned, hfree⟩, rfl⟩ := hstep
  have hopen : connection ∈ service.table := hbalanced.unassigned_subset hunassigned
  -- The assigned connection belongs to no other worker.
  have hown : ∀ other, (service.workers other).td.used = 1 →
      service.serving other ≠ connection.number := by
    intro other hused heq
    obtain ⟨hserved, hassigned⟩ := hbalanced.serving_mem other hused
    have hsame := hbalanced.eq_of_number_eq hserved hopen heq
    exact hassigned (hsame ▸ hunassigned)
  refine
    { hbalanced with
      unassigned_nodup := ?_, unassigned_subset := ?_, serving_mem := ?_, serving_inj := ?_,
      used_of_msgReceived := ?_ }
  · exact hbalanced.unassigned_nodup.erase connection
  · exact fun other hmem ↦ hbalanced.unassigned_subset (List.mem_of_mem_erase hmem)
  · intro other hused
    by_cases hother : other = worker
    · subst hother
      simp only [Function.update_self, assignConnection]
      exact ⟨hopen, hbalanced.unassigned_nodup.not_mem_erase⟩
    · simp only [Function.update_of_ne hother] at hused ⊢
      obtain ⟨hserved, hassigned⟩ := hbalanced.serving_mem other hused
      exact ⟨hserved, fun hmem ↦ hassigned (List.mem_of_mem_erase hmem)⟩
  · intro first second hfirst hsecond heq
    by_cases hfirstWorker : first = worker <;> by_cases hsecondWorker : second = worker
    · rw [hfirstWorker, hsecondWorker]
    · simp only [hfirstWorker, Function.update_self, Function.update_of_ne hsecondWorker]
        at hsecond heq
      exact absurd heq.symm (hown second hsecond)
    · simp only [hsecondWorker, Function.update_self, Function.update_of_ne hfirstWorker]
        at hfirst heq
      exact absurd heq (hown first hfirst)
    · simp only [Function.update_of_ne hfirstWorker, Function.update_of_ne hsecondWorker]
        at hfirst hsecond heq
      exact hbalanced.serving_inj first second hfirst hsecond heq
  · intro other hready
    by_cases hother : other = worker
    · subst hother
      simp only [Function.update_self, assignConnection]
    · simp only [Function.update_of_ne hother] at hready ⊢
      exact hbalanced.used_of_msgReceived other hready

/-- Closing the connection of a worker in use, which then is free, keeps the balance. -/
theorem balanced_closeConnection [DecidableEq ι] {service : Service ι} {worker : ι}
    {served : Worker} (hbalanced : Balanced service) (hused : (service.workers worker).td.used = 1)
    (hfree : served.td.used = -1) (hready : served.td.msgReceived = 0) :
    Balanced (closeConnection worker (service.workers worker).td.connSd
      { service with workers := Function.update service.workers worker served }) := by
  set connSd := (service.workers worker).td.connSd with hconn
  obtain ⟨hopen, hassigned⟩ := hbalanced.serving_mem worker hused
  have hinUse : ∀ other, (Function.update service.workers worker served other).td.used = 1 →
      other ≠ worker ∧ (service.workers other).td.used = 1 := by
    intro other hotherUsed
    by_cases hother : other = worker
    · rw [hother, Function.update_self, hfree] at hotherUsed
      exact absurd hotherUsed (by decide)
    · rw [Function.update_of_ne hother] at hotherUsed
      exact ⟨hother, hotherUsed⟩
  refine
    { decrements_eq := ?_, maxDescriptor_eq := ?_, connSd_nodup := ?_, number_perm := ?_,
      unassigned_nodup := hbalanced.unassigned_nodup, unassigned_subset := ?_, serving_mem := ?_,
      serving_inj := ?_, used_of_msgReceived := ?_ }
  · exact congrArg (service.serving worker :: ·) hbalanced.decrements_eq
  · exact hbalanced.maxDescriptor_close hopen
  · exact hbalanced.connSd_nodup.sublist ((List.filter_sublist ..).map _)
  · exact hbalanced.number_perm_close hopen
  · intro connection hmem
    have hne : connection ≠ ⟨connSd, service.serving worker⟩ := fun heq ↦ hassigned (heq ▸ hmem)
    exact hbalanced.mem_filter_of_ne hopen (hbalanced.unassigned_subset hmem) hne
  · intro other hotherUsed
    obtain ⟨hother, hotherUsed⟩ := hinUse other hotherUsed
    obtain ⟨hserved, hotherAssigned⟩ := hbalanced.serving_mem other hotherUsed
    have hne : (⟨(service.workers other).td.connSd, service.serving other⟩ : OpenConnection) ≠
        ⟨connSd, service.serving worker⟩ := by
      intro heq
      rw [OpenConnection.mk.injEq] at heq
      exact hother (hbalanced.serving_inj other worker hotherUsed hused heq.2)
    show ⟨(Function.update service.workers worker served other).td.connSd, service.serving other⟩ ∈
        (service.table.filter fun connection ↦ connection.connSd ≠ connSd) ∧
      ⟨(Function.update service.workers worker served other).td.connSd, service.serving other⟩ ∉
        service.unassigned
    rw [Function.update_of_ne hother]
    exact ⟨hbalanced.mem_filter_of_ne hopen hserved hne, hotherAssigned⟩
  · intro first second hfirst hsecond heq
    exact hbalanced.serving_inj first second (hinUse first hfirst).2 (hinUse second hsecond).2 heq
  · intro other hotherReady
    show (Function.update service.workers worker served other).td.used = 1
    have hotherReady' :
        (Function.update service.workers worker served other).td.msgReceived = 1 := hotherReady
    by_cases hother : other = worker
    · rw [hother, Function.update_self, hready] at hotherReady'
      exact absurd hotherReady' (by decide)
    · rw [Function.update_of_ne hother] at hotherReady' ⊢
      exact hbalanced.used_of_msgReceived other hotherReady'

/-- Keeping the connection of a worker in use keeps the balance. -/
theorem balanced_keep [DecidableEq ι] {service : Service ι} {worker : ι} {served : Worker}
    (hbalanced : Balanced service) (hused : (service.workers worker).td.used = 1)
    (hconn : served.td.connSd = (service.workers worker).td.connSd)
    (hkept : served.td.used = (service.workers worker).td.used) :
    Balanced { service with workers := Function.update service.workers worker served } := by
  have hslot : ∀ other,
      (Function.update service.workers worker served other).td.used =
          (service.workers other).td.used ∧
        (Function.update service.workers worker served other).td.connSd =
          (service.workers other).td.connSd := by
    intro other
    by_cases hother : other = worker
    · rw [hother, Function.update_self]
      exact ⟨hkept, hconn⟩
    · rw [Function.update_of_ne hother]
      exact ⟨rfl, rfl⟩
  refine { hbalanced with serving_mem := ?_, serving_inj := ?_, used_of_msgReceived := ?_ }
  · intro other hotherUsed
    rw [(hslot other).1] at hotherUsed
    simp only [(hslot other).2]
    exact hbalanced.serving_mem other hotherUsed
  · intro first second hfirst hsecond heq
    rw [(hslot first).1] at hfirst
    rw [(hslot second).1] at hsecond
    exact hbalanced.serving_inj first second hfirst hsecond heq
  · intro other hotherReady
    rw [(hslot other).1]
    by_cases hother : other = worker
    · rw [hother]
      exact hused
    · simp only [Function.update_of_ne hother] at hotherReady
      exact hbalanced.used_of_msgReceived other hotherReady

/-- Every step that finds its images keeps the balance. -/
theorem balanced_step [DecidableEq ι] (service : Service ι) (action : ServiceAction ι)
    (service' : Service ι) (hbalanced : Balanced service) (hguard : FindsImages service action)
    (hstep : serviceStep service action = some service') : Balanced service' := by
  cases action with
  | accept connSd => exact balanced_accept hbalanced hstep
  | dispatch worker connection clientAddr => exact balanced_dispatch hbalanced hstep
  | serve worker input =>
    obtain ⟨hready, served, hconn, hclosed | hkept⟩ := serve_cases hguard hstep
    · obtain ⟨hfree, hidle, rfl⟩ := hclosed
      exact balanced_closeConnection hbalanced (hbalanced.used_of_msgReceived worker hready) hfree
        hidle
    · obtain ⟨hused, rfl⟩ := hkept
      exact balanced_keep hbalanced (hbalanced.used_of_msgReceived worker hready) hconn hused

/-! ### Exact accounting -/

/-- The connections that were not closed yet are the open ones. -/
theorem length_notYetClosed {service : Service ι} (hbalanced : Balanced service) :
    (notYetClosed service).length = service.table.length := by
  have hdisjoint := (List.nodup_append.mp hbalanced.number_nodup).2.2
  have hopen : (service.table.map OpenConnection.number).filter (· ∉ service.closes) =
      service.table.map OpenConnection.number := by
    apply List.filter_eq_self.mpr
    intro number hnumber
    apply decide_eq_true
    intro hclosed
    exact hdisjoint number hnumber number hclosed rfl
  have hclosed : service.closes.filter (· ∉ service.closes) = [] := by
    apply List.filter_eq_nil_iff.mpr
    intro number hnumber
    simpa using hnumber
  have hperm := hbalanced.number_perm.filter (· ∉ service.closes)
  rw [List.filter_append, hopen, hclosed, List.append_nil] at hperm
  rw [notYetClosed, ← hperm.length_eq, List.length_map]

/-- In a run without answers for missing images the accounting is exact in every state. -/
theorem exact_of_guarded [DecidableEq ι] {actions : List (ServiceAction ι)} {service : Service ι}
    (hguarded : Guarded serviceStep FindsImages startedService actions)
    (hrun : run serviceStep startedService actions = some service) : Exact service := by
  have hbalanced : Balanced service :=
    invariant_of_guarded balanced_step balanced_startedService hguarded hrun
  refine ⟨(List.nodup_append.mp hbalanced.number_nodup).2.1, hbalanced.decrements_eq, ?_⟩
  rw [length_notYetClosed hbalanced, hbalanced.maxDescriptor_eq]

/-- The client is gone: `recv` reports the end of its stream. -/
def receivedEnd : IterationInput where
  received := [.data []]
  imagePresent := true
  clientGone := false
  polls := []

/-- Two clients connect, and the first one gets its photo and leaves. Its descriptor is the one of
the next connection, which the same worker serves. -/
def reusedDescriptor : List (ServiceAction Bool) :=
  [.accept 4, .accept 5, .dispatch true ⟨4, 0⟩ (0, 0), .dispatch false ⟨5, 1⟩ (0, 0),
    .serve true servedPhoto, .serve true receivedEnd, .accept 4, .dispatch true ⟨4, 2⟩ (0, 0),
    .serve false servedPhoto, .serve true servedPhoto]

theorem exact_photo :
    ∃ service : Service Bool, run serviceStep startedService reusedDescriptor = some service ∧
      service.closes = [0] ∧ service.maxDescriptor = 3 ∧ Exact service := by
  have hrecord : (run serviceStep startedService reusedDescriptor).map
      (fun service ↦ (service.closes, service.maxDescriptor)) = some ([0], 3) := by decide +kernel
  obtain ⟨service, hrun, hrecord⟩ := Option.map_eq_some_iff.mp hrecord
  rw [Prod.mk.injEq] at hrecord
  exact ⟨service, hrun, hrecord.1, hrecord.2, exact_of_guarded (by decide +kernel) hrun⟩

/-- The request for a photo that is missing. The descriptor is closed when it is polled again, which
`poll` reports as an event. -/
def missingPhoto : IterationInput :=
  { servedPhoto with imagePresent := false }

/-- The next `recv` on the closed descriptor. -/
def receivedOnClosed : IterationInput where
  received := [.error .ebadf]
  imagePresent := true
  clientGone := false
  polls := []

/-- The connection of a request for a missing image is closed and counted back twice. -/
theorem not_exact :
    ¬ ∀ (actions : List (ServiceAction Unit)) (service : Service Unit),
      run serviceStep startedService actions = some service → Exact service := by
  intro hexact
  have hcloses : (run serviceStep (startedService : Service Unit)
      [.accept 4, .dispatch () ⟨4, 0⟩ (0, 0), .serve () missingPhoto,
        .serve () receivedOnClosed]).map Service.closes = some [0, 0] := by decide +kernel
  obtain ⟨service, hrun, hcloses⟩ := Option.map_eq_some_iff.mp hcloses
  have hnodup := (hexact _ service hrun).closes_nodup
  rw [hcloses] at hnodup
  exact absurd hnodup (by decide)

end ImageApp.Connections
