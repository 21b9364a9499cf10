import ImageApp.Foundations.FifoMisses
import ImageApp.Queries.Concurrency
import Mathlib.Data.Fintype.Card

/-!
# What the database is asked

`sent_eq_misses` is about every sequence of requests, one at a time: the queries that are sent to
the database are those that a cache of the last 256 misses misses. So a query is sent again only
after 256 others, and 256 devices are looked up once each.

With many workers a query can be sent by each of them before the first answer is in the cache, but
by none of them twice as long as nothing has to leave the cache. `answersOwn_of_few` is about every
interleaving in which the number of devices times that of the workers is at most 256: every request
gets the dimensions of its own query, and no query is in the cache more often than there are
workers.
-/

set_option autoImplicit false
set_option relaxedAutoImplicit false

namespace ImageApp.Queries

open Foundations.CStrings Foundations.FifoRing Foundations.GuardedRuns Server

/-! ### One request at a time -/

section Sequence

variable {db : List Byte → Option DeviceRow} (arith : Arithmetic) (beyond : List Byte)

/-- A request sends its query when the query is not among the last ones that were sent. -/
theorem missed_of_queryStep {session session' : QuerySession} {slots : Fin 256 → Option (List Byte)}
    (hremembers : Remembers db session slots) {request : DeviceRequest}
    (hstep : queryStep arith beyond db session request = some session') :
    session'.missed = miss 256 session.missed request.query := by
  obtain ⟨retrieval, hretrieve, -, hcases⟩ :=
    retrieveDimFromDB_spec arith beyond hremembers.mirrors request
  rw [queryStep, hretrieve, Option.map_some, Option.some.injEq] at hstep
  have hwindow := @HoldsLast.exists_iff _ _ _ _ hremembers.holdsLast request.query
  rw [← hstep, miss]
  rcases hcases with ⟨-, hsent, hheld⟩ | ⟨hsent, hfree, -⟩
  · rw [if_pos (hwindow.mp hheld), hsent, List.append_nil]
  · have hmissed : request.query ∉ window 256 session.missed := by
      rw [← hwindow, not_exists]
      exact hfree
    rw [if_neg hmissed, hsent]

/-- Every sequence of requests comes to its end, and sends the misses of its queries. -/
theorem exists_run_misses (requests : List DeviceRequest) :
    ∃ session slots, run (queryStep arith beyond db) startSession requests = some session ∧
      session.missed = misses 256 (requests.map DeviceRequest.query) ∧
      Remembers db session slots := by
  induction requests using List.reverseRecOn with
  | nil => exact ⟨startSession, _, rfl, rfl, remembers_startSession⟩
  | append_singleton requests request ih =>
    obtain ⟨session, slots, hrun, hmissed, hremembers⟩ := ih
    obtain ⟨session', slots', hstep, -, -, hremembers'⟩ :=
      remembers_step arith beyond hremembers request
    refine ⟨session', slots', ?_, ?_, hremembers'⟩
    · rw [run_append, hrun, Option.bind_some, run_cons, hstep]
      rfl
    · rw [missed_of_queryStep arith beyond hremembers hstep, hmissed, List.map_append]
      exact (misses_concat _ _).symm

/-- The queries that are sent to the database are the misses of a cache of the last 256 queries. A
query is sent again only after 256 others, so that no query is more than one in 257 of them, but for
the first, and at most 256 queries are sent once each. -/
theorem sent_eq_misses (db : List Byte → Option DeviceRow) (requests : List DeviceRequest) :
    ∃ session, run (queryStep arith beyond db) startSession requests = some session ∧
      session.missed = misses 256 (requests.map DeviceRequest.query) ∧
      Spaced 256 session.missed ∧
      (∀ query, session.missed.count query * 257 ≤ session.missed.length + 256) ∧
      ∀ devices : Finset (List Byte), devices.card ≤ 256 →
        (∀ request ∈ requests, request.query ∈ devices) → session.missed.Nodup := by
  obtain ⟨session, slots, hrun, hmissed, -⟩ := @exists_run_misses db arith beyond requests
  have hspaced : Spaced 256 session.missed := hmissed ▸ spaced_misses _
  refine ⟨session, hrun, hmissed, hspaced, count_mul_le_of_spaced hspaced,
    fun devices hfew hdevices ↦ ?_⟩
  rw [hmissed]
  apply nodup_misses hfew
  intro query hmem
  obtain ⟨request, hrequest, rfl⟩ := List.mem_map.mp hmem
  exact hdevices request hrequest

end Sequence

/-! ### Many workers and few devices -/

variable {ι : Type*} [DecidableEq ι] [Fintype ι] {db : List Byte → Option DeviceRow}

/-- The query of a search is one of the given ones. -/
def SearchesIn (devices : Finset (List Byte)) : QueryAction ι → Prop
  | .search _ request => request.query ∈ devices
  | .insert _ | .read _ => True

/-- The query that a worker has fetched and not yet inserted. -/
def fetchedQuery : QueryPlace → Option (List Byte)
  | .fetched query _ _ => some query
  | .outside | .found _ _ => none

/-- The workers that have fetched a query and not yet inserted it. -/
def fetching (pool : QueryPool ι) (query : List Byte) : Finset ι :=
  Finset.univ.filter fun worker ↦ fetchedQuery (pool.place worker) = some query

/-- The workers after one of them has gone on. -/
theorem card_fetching_update {pool : QueryPool ι} {worker : ι} {next : QueryPlace}
    {ended : List (List Byte × Dimensions)} {queries : QueryCache} (query : List Byte) :
    (fetching ⟨queries, Function.update pool.place worker next, ended⟩ query).card +
        (if fetchedQuery (pool.place worker) = some query then 1 else 0) =
      (fetching pool query).card + if fetchedQuery next = some query then 1 else 0 := by
  have hsplit : ∀ other : QueryPool ι, (fetching other query).card =
      ((Finset.univ.erase worker).filter fun i ↦
        fetchedQuery (other.place i) = some query).card +
          if fetchedQuery (other.place worker) = some query then 1 else 0 := by
    intro other
    rw [fetching, ← Finset.insert_erase (Finset.mem_univ worker), Finset.filter_insert,
      Finset.erase_insert_eq_erase, Finset.erase_idem]
    split_ifs with hworker
    · rw [Finset.card_insert_of_notMem (by simp)]
    · rw [Nat.add_zero]
  have hothers : ((Finset.univ.erase worker).filter fun i ↦
      fetchedQuery (Function.update pool.place worker next i) = some query) =
        (Finset.univ.erase worker).filter fun i ↦ fetchedQuery (pool.place i) = some query := by
    apply Finset.filter_congr
    intro i hi
    rw [Function.update_of_ne (Finset.ne_of_mem_erase hi)]
  rw [hsplit, hsplit pool]
  simp only [hothers, Function.update_self]
  omega

/-- The cache has never been full: what was inserted is still there, and each of the devices was
inserted by a worker, or is about to be inserted by it, at most once. -/
structure Sparse (db : List Byte → Option DeviceRow) (devices : Finset (List Byte))
    (pool : QueryPool ι) (history : List (List Byte)) (slots : Fin 256 → Option (List Byte)) :
    Prop where
  mirrors : Mirrors db pool.queries slots
  holdsLast : HoldsLast slots history
  idxCache_eq : pool.queries.idxCache = history.length % 2 ^ 64
  mem_devices : ∀ query ∈ history, query ∈ devices
  fetched_mem : ∀ worker query, fetchedQuery (pool.place worker) = some query → query ∈ devices
  count_le : ∀ query, history.count query + (fetching pool query).card ≤ Fintype.card ι
  found : ∀ worker query i, pool.place worker = .found query i → slots i = some query

variable {devices : Finset (List Byte)} {pool : QueryPool ι} {history : List (List Byte)}
  {slots : Fin 256 → Option (List Byte)}

omit [DecidableEq ι] in
/-- What was inserted, with what a worker is about to insert, fits into the cache. -/
theorem Sparse.length_lt (hsparse : Sparse db devices pool history slots)
    (hfew : devices.card * Fintype.card ι ≤ 256) {worker : ι} {query : List Byte}
    (hfetched : fetchedQuery (pool.place worker) = some query) : history.length < 256 := by
  have hbound : (history ++ [query]).length ≤ devices.card * Fintype.card ι := by
    apply length_le_of_count_le
    · intro other hother
      rcases List.mem_append.mp hother with hold | hnew
      · exact hsparse.mem_devices other hold
      · rw [List.mem_singleton] at hnew
        exact hnew ▸ hsparse.fetched_mem worker query hfetched
    · intro other
      have hcount := hsparse.count_le other
      rw [List.count_append, List.count_singleton]
      split_ifs with heq
      · rw [beq_iff_eq] at heq
        have hworker : worker ∈ fetching pool other := by
          rw [fetching, Finset.mem_filter, ← heq]
          exact ⟨Finset.mem_univ _, hfetched⟩
        have hpos := Finset.card_pos.mpr ⟨worker, hworker⟩
        omega
      · omega
  rw [List.length_append, List.length_singleton] at hbound
  omega

omit [DecidableEq ι] in
/-- As long as the cache is not full, the next entry is a free one. -/
theorem Sparse.ne_nextSlot (hsparse : Sparse db devices pool history slots)
    (hlength : history.length < 256) {i : Fin 256} {query : List Byte}
    (hheld : slots i = some query) : i ≠ nextSlot pool.queries.idxCache := by
  rintro rfl
  obtain ⟨k, hk, hmod, -⟩ := (hsparse.holdsLast _ _).mp hheld
  have hlt := (List.getElem?_eq_some_iff.mp hk).1
  rw [← (mod_size_of_idxCache hsparse.idxCache_eq).1] at hmod
  omega

/-- A worker that does not start or end an insertion goes on. -/
theorem Sparse.move (hsparse : Sparse db devices pool history slots) {worker : ι}
    {next : QueryPlace} {ended : List (List Byte × Dimensions)}
    (hplace : fetchedQuery (pool.place worker) = none) (hnext : fetchedQuery next = none)
    (hfound : ∀ query i, next = .found query i → slots i = some query) :
    Sparse db devices ⟨pool.queries, Function.update pool.place worker next, ended⟩ history
      slots where
  mirrors := hsparse.mirrors
  holdsLast := hsparse.holdsLast
  idxCache_eq := hsparse.idxCache_eq
  mem_devices := hsparse.mem_devices
  fetched_mem := by
    intro other query hfetched
    by_cases hother : other = worker
    · subst hother
      simp only [Function.update_self, hnext] at hfetched
      simp at hfetched
    · simp only [Function.update_of_ne hother] at hfetched
      exact hsparse.fetched_mem other query hfetched
  count_le := by
    intro query
    have hcard := @card_fetching_update ι _ _ pool worker next ended pool.queries query
    rw [hplace, hnext] at hcard
    have hcount := hsparse.count_le query
    simp only [reduceCtorEq, if_false, Nat.add_zero] at hcard
    rw [hcard]
    exact hcount
  found := by
    intro other query i hother
    by_cases heq : other = worker
    · subst heq
      simp only [Function.update_self] at hother
      exact hfound query i hother
    · simp only [Function.update_of_ne heq] at hother
      exact hsparse.found other query i hother

/-- A worker that has found nothing asks the database. -/
theorem Sparse.fetch (hsparse : Sparse db devices pool history slots)
    (hfew : devices.card * Fintype.card ι ≤ 256) {worker : ι} {query : List Byte}
    {dimensions : Dimensions} {state : DBStat} (hplace : pool.place worker = .outside)
    (hquery : query ∈ devices) (hfree : ∀ i, slots i ≠ some query) :
    Sparse db devices
      { pool with place := Function.update pool.place worker (.fetched query dimensions state) }
      history slots where
  mirrors := hsparse.mirrors
  holdsLast := hsparse.holdsLast
  idxCache_eq := hsparse.idxCache_eq
  mem_devices := hsparse.mem_devices
  fetched_mem := by
    intro other query' hfetched
    by_cases hother : other = worker
    · subst hother
      simp only [Function.update_self, fetchedQuery, Option.some.injEq] at hfetched
      exact hfetched ▸ hquery
    · simp only [Function.update_of_ne hother] at hfetched
      exact hsparse.fetched_mem other query' hfetched
  count_le := by
    intro query'
    by_cases heq : query = query'
    · -- Nobody has inserted the query yet.
      subst heq
      have hlength : history.length ≤ 256 := by
        have hle := length_le_of_count_le hsparse.mem_devices fun query ↦
          Nat.le_of_add_right_le (hsparse.count_le query)
        omega
      have hnone : history.count query = 0 := by
        rw [List.count_eq_zero, ← window_of_length_le hlength, ← hsparse.holdsLast.exists_iff,
          not_exists]
        exact hfree
      rw [hnone, Nat.zero_add]
      exact Finset.card_le_univ _
    · have hcard := @card_fetching_update ι _ _ pool worker (.fetched query dimensions state)
        pool.ended pool.queries query'
      have hcount := hsparse.count_le query'
      simp only [hplace, fetchedQuery, reduceCtorEq, if_false, Nat.add_zero, Option.some.injEq,
        if_neg heq] at hcard
      rw [hcard]
      exact hcount
  found := by
    intro other query' i hother
    by_cases heq : other = worker
    · subst heq
      simp at hother
    · simp only [Function.update_of_ne heq] at hother
      exact hsparse.found other query' i hother

/-- A worker inserts the answer of the database. -/
theorem Sparse.insert (hsparse : Sparse db devices pool history slots)
    (hfew : devices.card * Fintype.card ι ≤ 256) {worker : ι} {userAgent : List Byte}
    (hproper : ProperAgent userAgent)
    (hplace : pool.place worker = .fetched (deviceQuery userAgent)
      (fetchedDimensions (db (deviceQuery userAgent))) (storedState (db (deviceQuery userAgent))))
    (ended : List (List Byte × Dimensions)) :
    Sparse db devices
      ⟨insertQuery pool.queries (deviceQuery userAgent)
        (fetchedDimensions (db (deviceQuery userAgent))) (storedState (db (deviceQuery userAgent))),
        Function.update pool.place worker .outside, ended⟩
      (history ++ [deviceQuery userAgent])
      (Function.update slots (nextSlot pool.queries.idxCache) (some (deviceQuery userAgent))) := by
  have hfetched : fetchedQuery (pool.place worker) = some (deviceQuery userAgent) := by
    rw [hplace]
    rfl
  have hlength := hsparse.length_lt hfew hfetched
  obtain ⟨hslot, hcounter⟩ := mod_size_of_idxCache hsparse.idxCache_eq
  constructor
  · exact mirrors_insert hsparse.mirrors hproper
  · exact hsparse.holdsLast.push hslot _
  · show (pool.queries.idxCache + 1) % 2 ^ 64 = _
    rw [hcounter, List.length_append, List.length_singleton]
  · intro query hmem
    rcases List.mem_append.mp hmem with hold | hnew
    · exact hsparse.mem_devices query hold
    · rw [List.mem_singleton] at hnew
      exact hnew ▸ hsparse.fetched_mem worker _ hfetched
  · intro other query hother
    by_cases heq : other = worker
    · subst heq
      simp [fetchedQuery] at hother
    · simp only [Function.update_of_ne heq] at hother
      exact hsparse.fetched_mem other query hother
  · intro query
    have hcard := @card_fetching_update ι _ _ pool worker .outside ended
      (insertQuery pool.queries (deviceQuery userAgent)
        (fetchedDimensions (db (deviceQuery userAgent))) (storedState (db (deviceQuery userAgent))))
      query
    have hcount := hsparse.count_le query
    rw [hfetched] at hcard
    simp only [Option.some.injEq, fetchedQuery, reduceCtorEq, if_false, Nat.add_zero] at hcard
    rw [List.count_append, List.count_singleton]
    simp only [beq_iff_eq]
    omega
  · intro other query i hother
    by_cases heq : other = worker
    · subst heq
      simp at hother
    · simp only [Function.update_of_ne heq] at hother
      have hheld := hsparse.found other query i hother
      rw [Function.update_of_ne (hsparse.ne_nextSlot hlength hheld)]
      exact hheld

/-- The cache is sparse, and what the workers have learned is right. -/
def SparseConsistent (db : List Byte → Option DeviceRow) (devices : Finset (List Byte))
    (pool : QueryPool ι) : Prop :=
  Consistent db pool ∧ ∃ history slots, Sparse db devices pool history slots

omit [DecidableEq ι] in
/-- In a sparse cache an entry that was found still holds the query. -/
theorem stillHeld_of_sparse (hsparse : Sparse db devices pool history slots)
    (action : QueryAction ι) : StillHeld pool action := by
  cases action with
  | search worker request => trivial
  | insert worker => trivial
  | read worker =>
    rw [StillHeld]
    cases hplace : pool.place worker with
    | outside => trivial
    | fetched query dimensions state => trivial
    | found query i =>
      rw [EntryHeld, heldQuery_of_stores (hsparse.mirrors i)]
      exact hsparse.found worker query i hplace

/-- A step of a worker that asks for one of few devices. -/
theorem sparseConsistent_step (hfew : devices.card * Fintype.card ι ≤ 256) (pool : QueryPool ι)
    (action : QueryAction ι) (pool' : QueryPool ι) (hinv : SparseConsistent db devices pool)
    (hguard : SearchesIn devices action) (hstep : poolStep db pool action = some pool') :
    SparseConsistent db devices pool' := by
  obtain ⟨hconsistent, history, slots, hsparse⟩ := hinv
  refine ⟨consistent_step pool action pool' hconsistent (stillHeld_of_sparse hsparse action)
    hstep, ?_⟩
  cases action with
  | search worker request =>
    simp only [poolStep] at hstep
    split at hstep
    · rename_i hplace
      have hidle : fetchedQuery (pool.place worker) = none := by
        rw [hplace]
        rfl
      simp only [tmpQuery_eq request.proper, Option.bind_some, Option.map_eq_some_iff] at hstep
      obtain ⟨found, hsearch, rfl⟩ := hstep
      rcases searchCache_spec hsparse.mirrors request.proper with
        ⟨i, hfound, hheld⟩ | ⟨hnone, hfree⟩
      · rw [hfound, Option.some.injEq] at hsearch
        subst hsearch
        refine ⟨history, slots, ?_⟩
        show Sparse db devices (ite _ _ _) history slots
        split_ifs with hstate
        · exact hsparse.move hidle rfl fun query j hout ↦ by simp at hout
        · refine hsparse.move hidle rfl fun query j hout ↦ ?_
          rw [QueryPlace.found.injEq] at hout
          rw [← hout.1, ← hout.2, hheld]
      · rw [hnone, Option.some.injEq] at hsearch
        subst hsearch
        exact ⟨history, slots, hsparse.fetch hfew hplace hguard hfree⟩
    · simp at hstep
  | insert worker =>
    simp only [poolStep] at hstep
    split at hstep
    · rename_i query dimensions state hplace
      have hright := hconsistent.places worker
      rw [hplace] at hright
      obtain ⟨userAgent, hproper, rfl, rfl, rfl⟩ := hright
      rw [Option.some.injEq] at hstep
      rw [← hstep]
      exact ⟨_, _, hsparse.insert hfew hproper hplace _⟩
    · simp at hstep
  | read worker =>
    simp only [poolStep] at hstep
    split at hstep
    · rename_i query i hplace
      rw [Option.some.injEq] at hstep
      rw [← hstep]
      refine ⟨history, slots, hsparse.move ?_ rfl fun query' j hout ↦ by simp at hout⟩
      rw [hplace]
      rfl
    · simp at hstep

omit [DecidableEq ι] in
/-- Before the first request the cache is sparse. -/
theorem sparseConsistent_start :
    SparseConsistent db devices (startQueryPool : QueryPool ι) := by
  refine ⟨consistent_start, [], fun _ ↦ none, ?_⟩
  exact
    { mirrors := remembers_startSession.mirrors
      holdsLast := holdsLast_nil
      idxCache_eq := rfl
      mem_devices := fun _ hmem ↦ absurd hmem List.not_mem_nil
      fetched_mem := fun worker query hfetched ↦ by simp [startQueryPool, fetchedQuery] at hfetched
      count_le := fun query ↦ by
        rw [List.count_nil, Nat.zero_add]
        exact Finset.card_le_univ _
      found := fun worker query i hfound ↦ by simp [startQueryPool] at hfound }

/-- In every interleaving of requests of few devices, every request gets the dimensions of its own
query, and the database is asked at most once for each device and worker. -/
theorem answersOwn_of_few (hfew : devices.card * Fintype.card ι ≤ 256)
    {actions : List (QueryAction ι)} {pool : QueryPool ι}
    (hdevices : ∀ action ∈ actions, SearchesIn devices action)
    (hrun : run (poolStep db) startQueryPool actions = some pool) :
    AnswersOwn db pool ∧ pool.queries.idxCache ≤ devices.card * Fintype.card ι := by
  obtain ⟨hconsistent, history, slots, hsparse⟩ := invariant_of_guarded
    (sparseConsistent_step hfew) sparseConsistent_start (guarded_of_forall hdevices) hrun
  refine ⟨hconsistent.answers, ?_⟩
  rw [hsparse.idxCache_eq]
  calc history.length % 2 ^ 64 ≤ history.length := Nat.mod_le ..
    _ ≤ devices.card * Fintype.card ι :=
      length_le_of_count_le hsparse.mem_devices fun query ↦
        Nat.le_of_add_right_le (hsparse.count_le query)

theorem answersOwn_of_few_phone :
    ∃ pool : QueryPool Bool,
      run (poolStep phoneDB) startQueryPool
          [.search true (agentRequest 0), .search false (agentRequest 0), .insert false,
            .insert true, .search false (agentRequest 0), .read false] = some pool ∧
        AnswersOwn phoneDB pool ∧
        pool.queries.idxCache ≤ ({(agentRequest 0).query} : Finset (List Byte)).card * 2 := by
  obtain ⟨pool, hrun⟩ := Option.isSome_iff_exists.mp
    (show (run (poolStep phoneDB) (startQueryPool : QueryPool Bool)
      [.search true (agentRequest 0), .search false (agentRequest 0), .insert false,
        .insert true, .search false (agentRequest 0), .read false]).isSome = true by
          decide +kernel)
  have hsingle : ∀ action ∈ ([.search true (agentRequest 0), .search false (agentRequest 0),
      .insert false, .insert true, .search false (agentRequest 0), .read false] :
        List (QueryAction Bool)), SearchesIn {(agentRequest 0).query} action := by
    simp [SearchesIn]
  exact ⟨pool, hrun, answersOwn_of_few (by decide) hsingle hrun⟩

end ImageApp.Queries
