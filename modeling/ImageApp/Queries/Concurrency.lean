import ImageApp.Queries.Transparency

/-!
# The cache of queries under many workers

The search of a request and its insertion are made under the mutex of the cache, but an entry that
the search has found is read after the mutex was released. Here these are three steps, and the
workers take them in any order. `run_pool_of_retrieve` says that a worker that is not interrupted
does what `retrieve_dim_from_DB` does.

`answersOwn_of_guarded` is about every interleaving in which an entry that was found still holds the
query when it is read: every request gets the dimensions of its own query. `not_answersOwn` is an
interleaving in which 256 other queries miss in between.
-/

set_option autoImplicit false
set_option relaxedAutoImplicit false

namespace ImageApp.Queries

open Foundations.CStrings Foundations.DecimalRows Foundations.FifoRing Foundations.GuardedRuns
  Server

variable {ι : Type*} [DecidableEq ι]

/-! ### Steps of the workers -/

/-- Where a worker is in `retrieve_dim_from_DB`. -/
inductive QueryPlace
  | outside
  | found (query : List Byte) (i : Fin 256)
  | fetched (query : List Byte) (dimensions : Dimensions) (state : DBStat)

/-- The cache, the places of the workers, and the requests that have ended, each with its query and
the dimensions that it ends with. -/
structure QueryPool (ι : Type*) where
  queries : QueryCache
  place : ι → QueryPlace
  ended : List (List Byte × Dimensions)

/-- A step of a worker: the search under the mutex, the insertion under the mutex, or the read of an
entry without it. -/
inductive QueryAction (ι : Type*)
  | search (worker : ι) (request : DeviceRequest)
  | insert (worker : ι)
  | read (worker : ι)

/-- The end of the request of a worker. -/
def endRequest (pool : QueryPool ι) (worker : ι) (query : List Byte) (dimensions : Dimensions) :
    QueryPool ι :=
  { pool with
    place := Function.update pool.place worker .outside
    ended := pool.ended ++ [(query, dimensions)] }

/-- A step. After a search that finds nothing the worker asks the database; an entry that stands for
a query without a row is not read again. -/
def poolStep (db : List Byte → Option DeviceRow) (pool : QueryPool ι) :
    QueryAction ι → Option (QueryPool ι)
  | .search worker request =>
    match pool.place worker with
    | .outside =>
      (tmpQuery request.userAgent).bind fun query ↦
        (searchCache pool.queries.cache query).map fun
          | none =>
            { pool with
              place := Function.update pool.place worker
                (.fetched query (fetchedDimensions (db query)) (storedState (db query))) }
          | some i =>
            if (pool.queries.cache i).state = .noValueInDB then
              endRequest pool worker query noDimensions
            else { pool with place := Function.update pool.place worker (.found query i) }
    | _ => none
  | .insert worker =>
    match pool.place worker with
    | .fetched query dimensions state =>
      some (endRequest { pool with queries := insertQuery pool.queries query dimensions state }
        worker query dimensions)
    | _ => none
  | .read worker =>
    match pool.place worker with
    | .found query i => some (endRequest pool worker query (readQuery pool.queries i))
    | _ => none

/-- The start of the program. -/
def startQueryPool : QueryPool ι where
  queries := emptyQueries
  place := fun _ ↦ .outside
  ended := []

/-- Every request has ended with the dimensions of its own query. -/
def AnswersOwn (db : List Byte → Option DeviceRow) (pool : QueryPool ι) : Prop :=
  ∀ query dimensions, (query, dimensions) ∈ pool.ended → dimensions = dimensionsOf (db query)

/-- The entry that a worker has found holds the query. -/
def EntryHeld (queries : QueryCache) : QueryPlace → Prop
  | .found query i => heldQuery (queries.cache i) = some query
  | .outside | .fetched _ _ _ => True

/-- An entry that is read still holds the query that it was found for. -/
def StillHeld (pool : QueryPool ι) : QueryAction ι → Prop
  | .read worker => EntryHeld pool.queries (pool.place worker)
  | .search _ _ | .insert _ => True

instance decidableEntryHeld (queries : QueryCache) (place : QueryPlace) :
    Decidable (EntryHeld queries place) :=
  match place with
  | .found _ _ => inferInstanceAs (Decidable (_ = _))
  | .outside | .fetched _ _ _ => inferInstanceAs (Decidable True)

instance decidableStillHeld (pool : QueryPool ι) (action : QueryAction ι) :
    Decidable (StillHeld pool action) :=
  match action with
  | .read _ => inferInstanceAs (Decidable (EntryHeld _ _))
  | .search _ _ | .insert _ => inferInstanceAs (Decidable True)

/-! ### Interleavings in which entries stay -/

variable {db : List Byte → Option DeviceRow}

/-- What a worker has learned so far is right. -/
def PlaceRight (db : List Byte → Option DeviceRow) : QueryPlace → Prop
  | .outside | .found _ _ => True
  | .fetched query dimensions state =>
    ∃ userAgent, ProperAgent userAgent ∧ query = deviceQuery userAgent ∧
      dimensions = fetchedDimensions (db query) ∧ state = storedState (db query)

/-- The state between two steps. -/
structure Consistent (db : List Byte → Option DeviceRow) (pool : QueryPool ι) : Prop where
  mirrors : ∃ slots, Mirrors db pool.queries slots
  places : ∀ worker, PlaceRight db (pool.place worker)
  answers : AnswersOwn db pool

/-- A change of one place to a right one. -/
theorem placeRight_update {place : ι → QueryPlace}
    (hplaces : ∀ worker, PlaceRight db (place worker))
    {worker : ι} {next : QueryPlace} (hnext : PlaceRight db next) (other : ι) :
    PlaceRight db (Function.update place worker next other) := by
  by_cases hother : other = worker
  · rw [hother, Function.update_self]
    exact hnext
  · rw [Function.update_of_ne hother]
    exact hplaces other

/-- The end of a request with the dimensions of its query. -/
theorem consistent_endRequest {pool : QueryPool ι} (hconsistent : Consistent db pool) (worker : ι)
    {query : List Byte} {dimensions : Dimensions} (hright : dimensions = dimensionsOf (db query)) :
    Consistent db (endRequest pool worker query dimensions) where
  mirrors := hconsistent.mirrors
  places := placeRight_update hconsistent.places trivial
  answers := by
    intro other dimensions' hmem
    rcases List.mem_append.mp hmem with hold | hnew
    · exact hconsistent.answers other dimensions' hold
    · rw [List.mem_singleton, Prod.mk.injEq] at hnew
      rw [hnew.1, hnew.2, hright]

/-- A worker goes on to another place. -/
theorem consistent_move {pool : QueryPool ι} (hconsistent : Consistent db pool) (worker : ι)
    {next : QueryPlace} (hnext : PlaceRight db next) :
    Consistent db { pool with place := Function.update pool.place worker next } where
  mirrors := hconsistent.mirrors
  places := placeRight_update hconsistent.places hnext
  answers := hconsistent.answers

/-- Every step that reads an entry only while it holds the query keeps the pool consistent. -/
theorem consistent_step (pool : QueryPool ι) (action : QueryAction ι) (pool' : QueryPool ι)
    (hconsistent : Consistent db pool) (hguard : StillHeld pool action)
    (hstep : poolStep db pool action = some pool') : Consistent db pool' := by
  obtain ⟨slots, hmirrors⟩ := hconsistent.mirrors
  cases action with
  | search worker request =>
    simp only [poolStep] at hstep
    split at hstep
    · simp only [tmpQuery_eq request.proper, Option.bind_some, Option.map_eq_some_iff] at hstep
      obtain ⟨found, hsearch, rfl⟩ := hstep
      rcases searchCache_spec hmirrors request.proper with ⟨i, hfound, hheld⟩ | ⟨hnone, -⟩
      · have hstores := hmirrors i
        rw [hheld] at hstores
        rw [hfound, Option.some.injEq] at hsearch
        subst hsearch
        show Consistent db (ite _ _ _)
        split_ifs with hstate
        · rw [(readQuery_of_stores hstores).2] at hstate
          apply consistent_endRequest hconsistent
          rw [eq_none_of_storedState hstate]
          rfl
        · exact consistent_move hconsistent worker trivial
      · rw [hnone, Option.some.injEq] at hsearch
        subst hsearch
        exact consistent_move hconsistent worker ⟨_, request.proper, rfl, rfl, rfl⟩
    · simp at hstep
  | insert worker =>
    simp only [poolStep] at hstep
    split at hstep
    · rename_i query dimensions state hplace
      have hright := hconsistent.places worker
      rw [hplace] at hright
      obtain ⟨userAgent, hproper, rfl, rfl, rfl⟩ := hright
      rw [Option.some.injEq] at hstep
      rw [← hstep]
      have hinserted : Consistent db { pool with queries := insertQuery pool.queries _ _ _ } :=
        { hconsistent with mirrors := ⟨_, mirrors_insert hmirrors hproper⟩ }
      exact consistent_endRequest hinserted worker (fetchedDimensions_eq _)
    · simp at hstep
  | read worker =>
    simp only [poolStep] at hstep
    split at hstep
    · rename_i query i hplace
      rw [StillHeld, hplace, EntryHeld, heldQuery_of_stores (hmirrors i)] at hguard
      have hstores := hmirrors i
      rw [hguard] at hstores
      rw [Option.some.injEq] at hstep
      rw [← hstep]
      exact consistent_endRequest hconsistent worker (readQuery_of_stores hstores).1
    · simp at hstep

omit [DecidableEq ι] in
/-- The start is consistent. -/
theorem consistent_start : Consistent db (startQueryPool : QueryPool ι) where
  mirrors := ⟨_, remembers_startSession.mirrors⟩
  places := fun _ ↦ trivial
  answers := fun _ _ hmem ↦ absurd hmem List.not_mem_nil

/-- In every interleaving in which an entry that was found still holds the query when it is read,
every request ends with the dimensions of its own query. -/
theorem answersOwn_of_guarded {actions : List (QueryAction ι)} {pool : QueryPool ι}
    (hguarded : Guarded (poolStep db) StillHeld startQueryPool actions)
    (hrun : run (poolStep db) startQueryPool actions = some pool) : AnswersOwn db pool :=
  (invariant_of_guarded consistent_step consistent_start hguarded hrun).answers

/-! ### A worker that is not interrupted -/

/-- A worker that is not interrupted does what `retrieve_dim_from_DB` does. -/
theorem run_pool_of_retrieve {arith : Arithmetic} {beyond : List Byte} {pool : QueryPool ι}
    {worker : ι} {request : DeviceRequest} {retrieval : Retrieval}
    (hplace : pool.place worker = .outside)
    (hretrieve : retrieveDimFromDB arith beyond db pool.queries request.toDimRequest =
      some retrieval) :
    ∃ actions, run (poolStep db) pool actions = some
      { queries := retrieval.queries
        place := pool.place
        ended := pool.ended ++ [(request.query, retrieval.dimensions)] } := by
  have hback : Function.update pool.place worker .outside = pool.place := by
    rw [← hplace, Function.update_eq_self]
  simp only [retrieveDimFromDB, tmpQuery_eq request.proper, Option.bind_some,
    Option.map_eq_some_iff] at hretrieve
  obtain ⟨found, hsearch, rfl⟩ := hretrieve
  cases found with
  | none =>
    refine ⟨[.search worker request, .insert worker], ?_⟩
    simp only [run_cons, poolStep, hplace, tmpQuery_eq request.proper, hsearch, Option.bind_some,
      Option.map_some, Function.update_self, endRequest, Function.update_idem, hback, run_nil,
      DeviceRequest.query]
  | some i =>
    by_cases hstate : (pool.queries.cache i).state = .noValueInDB
    · refine ⟨[.search worker request], ?_⟩
      simp only [run_cons, poolStep, hplace, tmpQuery_eq request.proper, hsearch, Option.bind_some,
        Option.map_some, if_pos hstate, endRequest, hback, run_nil, DeviceRequest.query]
    · refine ⟨[.search worker request, .read worker], ?_⟩
      simp only [run_cons, poolStep, hplace, tmpQuery_eq request.proper, hsearch, Option.bind_some,
        Option.map_some, if_neg hstate, Function.update_self, endRequest, Function.update_idem,
        hback, run_nil, DeviceRequest.query]

/-- Different queries that are sent one after another by one worker all miss. -/
theorem exists_run_of_nodup {pool : QueryPool ι} {worker : ι} {missed : List (List Byte)}
    {slots : Fin 256 → Option (List Byte)} (hplace : pool.place worker = .outside)
    (hremembers : Remembers db ⟨pool.queries, [], missed⟩ slots) {requests : List DeviceRequest}
    (hnodup : (missed ++ requests.map DeviceRequest.query).Nodup) :
    ∃ actions pool' slots', run (poolStep db) pool actions = some pool' ∧
      pool'.place = pool.place ∧
      Remembers db ⟨pool'.queries, [], missed ++ requests.map DeviceRequest.query⟩ slots' := by
  induction requests generalizing pool missed slots with
  | nil => exact ⟨[], pool, slots, rfl, rfl, by simpa using hremembers⟩
  | cons request requests ih =>
    rw [List.map_cons, List.append_cons] at hnodup ⊢
    have hfresh : request.query ∉ missed := by
      intro hmem
      have hdisjoint := (List.nodup_append.mp (List.nodup_append.mp hnodup).1).2.2
      exact hdisjoint _ hmem _ (List.mem_singleton_self _) rfl
    obtain ⟨session, slots₁, hstep, -, hmissed, hremembers₁⟩ :=
      remembers_step ieee [] hremembers request
    obtain ⟨retrieval, hretrieve, rfl⟩ := Option.map_eq_some_iff.mp hstep
    obtain ⟨actions, hrun⟩ := run_pool_of_retrieve hplace hretrieve
    have hremembers' : Remembers db ⟨retrieval.queries, [], missed ++ [request.query]⟩ slots₁ := by
      rw [← hmissed hfresh]
      exact { hremembers₁ with }
    obtain ⟨actions', pool', slots', hrun', hplace', hlast⟩ :=
      @ih ⟨retrieval.queries, pool.place, _⟩ _ _ hplace hremembers' hnodup
    refine ⟨actions ++ actions', pool', slots', ?_, hplace', hlast⟩
    rw [run_append, hrun, Option.bind_some, hrun']

/-! ### Many devices -/

/-- A row for a device of the given size. -/
def deviceRow (width height colors : ℤ) (hwidth : IsInt width) (hheight : IsInt height)
    (hcolors : IsInt colors) : DeviceRow where
  column := fun i ↦
    if i = 2 then intText height
    else if i = 3 then intText width
    else if i = 7 then intText colors
    else []
  height := height
  width := width
  colors := colors
  column_two := rfl
  column_three := rfl
  column_seven := rfl
  height_int := hheight
  width_int := hwidth
  colors_int := hcolors

theorem isInt_small {value : ℕ} (hsmall : value < 2 ^ 31) : IsInt value := by
  constructor
  · omega
  · exact_mod_cast hsmall

/-- A phone. -/
def phoneRow : DeviceRow :=
  deviceRow 640 480 16 (isInt_small (by norm_num)) (isInt_small (by norm_num))
    (isInt_small (by norm_num))

/-- A desktop computer. -/
def desktopRow : DeviceRow :=
  deviceRow 1920 1080 256 (isInt_small (by norm_num)) (isInt_small (by norm_num))
    (isInt_small (by norm_num))

/-- User agents of three digits. -/
theorem properAgent_numeral (i : ℕ) : ProperAgent (numeral (100 + i % 512)) := by
  have hthree : digitCount (100 + i % 512) ≤ 3 :=
    (Nat.digits_length_le_iff (by norm_num) _).mpr (by omega)
  constructor
  · intro hnil
    have hzero := numeral_injective (hnil.trans numeral_zero.symm)
    omega
  · rw [length_numeral]
    omega
  · exact notMem_numeral (Or.inl (by decide)) _
  · exact zero_notMem_numeral _

/-- A request of one of many devices. -/
def agentRequest (i : ℕ) : DeviceRequest where
  userAgent := numeral (100 + i % 512)
  imageName := bytes "photo"
  quality := 1
  proper := properAgent_numeral i

/-- Different devices have different queries. -/
theorem agentRequest_query_inj {i j : ℕ} (hi : i < 512) (hj : j < 512)
    (heq : (agentRequest i).query = (agentRequest j).query) : i = j := by
  rw [DeviceRequest.query, DeviceRequest.query, deviceQuery, deviceQuery, List.append_left_inj,
    List.append_right_inj] at heq
  have hnumber := numeral_injective heq
  omega

/-- The queries of the first devices. -/
def agentQueries (count : ℕ) : List (List Byte) :=
  (List.range count).map fun i ↦ (agentRequest i).query

theorem agentQueries_succ (count : ℕ) :
    agentQueries (count + 1) = [(agentRequest 0).query] ++
      ((List.range count).map fun i ↦ agentRequest (i + 1)).map DeviceRequest.query := by
  rw [agentQueries, List.range_succ_eq_map, List.map_cons, List.map_map, List.map_map]
  rfl

theorem getElem?_agentQueries {count i : ℕ} (hi : i < count) :
    (agentQueries count)[i]? = some (agentRequest i).query := by
  rw [agentQueries, List.getElem?_map, List.getElem?_range hi, Option.map_some]

theorem nodup_agentQueries {count : ℕ} (hcount : count ≤ 512) : (agentQueries count).Nodup := by
  apply List.Nodup.map_on
  · intro i hi j hj heq
    rw [List.mem_range] at hi hj
    exact agentRequest_query_inj (by omega) (by omega) heq
  · exact List.nodup_range

/-- The database knows one phone, and everything else is a desktop computer. -/
def phoneDB (query : List Byte) : Option DeviceRow :=
  if query = (agentRequest 0).query then some phoneRow else some desktopRow

/-- A worker finds the phone, and another one inserts a query before it reads the entry. -/
def insertedBeforeRead : List (QueryAction Bool) :=
  [.search false (agentRequest 0), .insert false, .search true (agentRequest 0),
    .search false (agentRequest 1), .insert false, .read true]

theorem answersOwn_phone :
    ∃ pool : QueryPool Bool, run (poolStep phoneDB) startQueryPool insertedBeforeRead = some pool ∧
      pool.ended.map Prod.fst =
        [(agentRequest 0).query, (agentRequest 1).query, (agentRequest 0).query] ∧
      AnswersOwn phoneDB pool := by
  have hended : (run (poolStep phoneDB) startQueryPool insertedBeforeRead).map
      (fun pool ↦ pool.ended.map Prod.fst) =
        some [(agentRequest 0).query, (agentRequest 1).query, (agentRequest 0).query] := by
    decide +kernel
  obtain ⟨pool, hrun, hended⟩ := Option.map_eq_some_iff.mp hended
  exact ⟨pool, hrun, hended, answersOwn_of_guarded (by decide +kernel) hrun⟩

/-- The entry of the phone is found, 256 other queries go around in the cache, and the entry is
read. -/
theorem not_answersOwn :
    ¬ ∀ (db : List Byte → Option DeviceRow) (actions : List (QueryAction Bool))
      (pool : QueryPool Bool), run (poolStep db) startQueryPool actions = some pool →
        AnswersOwn db pool := by
  intro hown
  -- One worker fills the cache, the other one has found the phone in between.
  have hphone : ([] ++ [agentRequest 0].map DeviceRequest.query).Nodup := List.nodup_singleton _
  obtain ⟨first, pool, slots, hfirst, hplace, hremembers⟩ :=
    @exists_run_of_nodup Bool _ phoneDB startQueryPool false [] _ rfl remembers_startSession _
      hphone
  have hlast : HoldsLast slots [(agentRequest 0).query] := hremembers.holdsLast
  have hslot : slots 0 = some (agentRequest 0).query :=
    hlast.eq_some List.getElem?_cons_zero rfl (by simp)
  have hsearch : searchCache pool.queries.cache (agentRequest 0).query = some (some 0) := by
    rcases searchCache_spec hremembers.mirrors (agentRequest 0).proper with
      ⟨i, hfound, hheld⟩ | ⟨-, hfree⟩
    · rw [hremembers.distinct _ _ _ hheld hslot] at hfound
      exact hfound
    · exact absurd hslot (hfree 0)
  have hstate : (pool.queries.cache 0).state = .valueDB := by
    have hstores := hremembers.mirrors 0
    rw [hslot] at hstores
    rw [(readQuery_of_stores hstores).2, phoneDB, if_pos rfl]
    rfl
  have hfind : poolStep phoneDB pool (.search true (agentRequest 0)) =
      some { pool with
        place := Function.update pool.place true (.found (agentRequest 0).query 0) } := by
    have houtside : pool.place true = .outside := by
      rw [hplace]
      rfl
    have hbusy : (pool.queries.cache 0).state ≠ .noValueInDB := by
      rw [hstate]
      decide
    simp only [poolStep, houtside, tmpQuery_eq (agentRequest 0).proper, Option.bind_some]
    rw [← DeviceRequest.query, hsearch, Option.map_some]
    simp only [if_neg hbusy]
  have hothers := @nodup_agentQueries (256 + 1) (by norm_num)
  rw [agentQueries_succ] at hothers
  obtain ⟨second, pool', slots', hsecond, hplace', hremembers'⟩ :=
    @exists_run_of_nodup Bool _ phoneDB
      { pool with place := Function.update pool.place true (.found (agentRequest 0).query 0) }
      false [(agentRequest 0).query] slots (by rw [hplace]; rfl) { hremembers with } _ hothers
  have hlast' : HoldsLast slots' (agentQueries (256 + 1)) := by
    rw [agentQueries_succ]
    exact hremembers'.holdsLast
  have hslot' : slots' 0 = some (agentRequest 256).query :=
    hlast'.eq_some (getElem?_agentQueries (by norm_num)) rfl (by simp [agentQueries])
  have hread : readQuery pool'.queries 0 = dimensionsOf (phoneDB (agentRequest 256).query) := by
    have hstores := hremembers'.mirrors 0
    rw [hslot'] at hstores
    exact (readQuery_of_stores hstores).1
  have hrun : run (poolStep phoneDB) startQueryPool
      (first ++ .search true (agentRequest 0) :: (second ++ [.read true])) =
        some (endRequest pool' true (agentRequest 0).query (readQuery pool'.queries 0)) := by
    rw [run_append, hfirst, Option.bind_some, run_cons, hfind, Option.bind_some, run_append,
      hsecond, Option.bind_some, run_cons, poolStep, hplace']
    simp
  have hwrong := hown _ _ _ hrun (agentRequest 0).query (readQuery pool'.queries 0)
    (List.mem_append_right _ List.mem_cons_self)
  have hne : (agentRequest 256).query ≠ (agentRequest 0).query := by
    intro heq
    have := agentRequest_query_inj (by norm_num) (by norm_num) heq
    omega
  rw [hread, phoneDB, phoneDB, if_pos rfl, if_neg hne] at hwrong
  exact absurd hwrong (by decide)

end ImageApp.Queries
