import ImageApp.Foundations.FifoRing
import ImageApp.Foundations.GuardedRuns
import ImageApp.Foundations.PathDescent
import ImageApp.Server.HandleDB

/-!
# The cache of queries, one request at a time

A query is looked for in the cache with `strstr`, so an entry is taken whose query merely holds the
wanted one. A user agent without a single quote cannot hide another query: the quotes around it are
the only ones in the query, and a query that occurs in another one is that one
(`deviceQuery_infix_iff`).

`Mirrors` relates the 256 entries to the queries that they stand for, each with the dimensions of
the answer of the database. It is kept by every insertion, and `retrieveDimFromDB_spec` says what a
request does to it. `retrieveDimFromDB_transparent` is the resulting statement about every sequence
of requests: the answers are those of the database, and the cache holds the last 256 queries that
were sent to it.
-/

set_option autoImplicit false
set_option relaxedAutoImplicit false

namespace ImageApp.Queries

open Foundations.CStrings Foundations.FifoRing Foundations.GuardedRuns Foundations.PathDescent
  Server

/-! ### Requests of devices -/

/-- The byte `'\''`. -/
abbrev quote : Byte := 39

/-- A user agent that fits into the query without ending its quotes. -/
structure ProperAgent (userAgent : List Byte) : Prop where
  ne_nil : userAgent ≠ []
  length_le : userAgent.length ≤ 81
  quote_notMem : quote ∉ userAgent
  zero_notMem : (0 : Byte) ∉ userAgent

/-- A request whose user agent is proper. -/
structure DeviceRequest extends DimRequest where
  proper : ProperAgent userAgent

/-- The query of the request. -/
def DeviceRequest.query (request : DeviceRequest) : List Byte :=
  deviceQuery request.userAgent

/-- The query of a proper user agent fits into the buffer. -/
theorem tmpQuery_eq {userAgent : List Byte} (hproper : ProperAgent userAgent) :
    tmpQuery userAgent = some (deviceQuery userAgent) := by
  have hfront : (queryFront ++ bytes "'").length = 43 := by decide
  have hback : (bytes "%';").length = 3 := by decide
  have hlength : (deviceQuery userAgent).length < 128 := by
    have hagent := hproper.length_le
    rw [deviceQuery, List.length_append, List.length_append, hfront, hback]
    omega
  rw [tmpQuery, if_neg hproper.ne_nil, if_pos hlength]

/-- The query of a proper user agent is a C string. -/
theorem zero_notMem_deviceQuery {userAgent : List Byte} (hproper : ProperAgent userAgent) :
    (0 : Byte) ∉ deviceQuery userAgent := by
  have hfront : (0 : Byte) ∉ queryFront ++ bytes "'" := by decide
  have hback : (0 : Byte) ∉ bytes "%';" := by decide
  rw [deviceQuery, List.mem_append, List.mem_append, not_or, not_or]
  exact ⟨⟨hfront, hproper.zero_notMem⟩, hback⟩

theorem deviceQuery_ne_nil (userAgent : List Byte) : deviceQuery userAgent ≠ [] := by
  have hlength : 0 < (bytes "%';").length := by decide
  apply List.ne_nil_of_length_pos
  rw [deviceQuery, List.length_append]
  omega

/-- A query occurs in another one only when the two are equal. -/
theorem deviceQuery_infix_iff {userAgent userAgent' : List Byte} (hproper : ProperAgent userAgent)
    (hproper' : ProperAgent userAgent') :
    deviceQuery userAgent <:+: deviceQuery userAgent' ↔
      deviceQuery userAgent = deviceQuery userAgent' := by
  have hsplit : ∀ userAgent : List Byte, deviceQuery userAgent =
      queryFront ++ quote :: (userAgent ++ [37] ++ quote :: bytes ";") := by
    intro userAgent
    rw [deviceQuery, show bytes "'" = [quote] by decide,
      show bytes "%';" = 37 :: quote :: bytes ";" by decide]
    simp
  have hbody : ∀ userAgent : List Byte, quote ∉ userAgent → quote ∉ userAgent ++ [37] := by
    intro userAgent hquote
    rw [List.mem_append, not_or]
    exact ⟨hquote, by decide⟩
  constructor
  · intro hoccurs
    rw [hsplit, hsplit] at hoccurs
    have heq := eq_of_infix_between (by decide) (by decide) (hbody _ hproper.quote_notMem)
      (hbody _ hproper'.quote_notMem) hoccurs
    rw [hsplit, hsplit, heq]
  · intro heq
    rw [heq]

/-! ### What the entries stand for -/

variable {db : List Byte → Option DeviceRow}

/-- The entry is free, or it stands for the query of a proper user agent and has the dimensions of
the answer of the database. -/
inductive Stores (db : List Byte → Option DeviceRow) : CacheQuery → Option (List Byte) → Prop
  | free : Stores db freeEntry none
  | query {entry : CacheQuery} {userAgent rest : List Byte} (hproper : ProperAgent userAgent)
      (hquery : entry.query = deviceQuery userAgent ++ 0 :: rest)
      (hstate : entry.state = storedState (db (deviceQuery userAgent)))
      (hdimensions : (⟨entry.colors, entry.width, entry.height⟩ : Dimensions) =
        dimensionsOf (db (deviceQuery userAgent))) :
      Stores db entry (some (deviceQuery userAgent))

/-- The query that an entry holds, unless it is free. -/
def heldQuery (entry : CacheQuery) : Option (List Byte) :=
  if untilNul entry.query = [] then none else some (untilNul entry.query)

/-- What an entry stands for is the query that it holds. -/
theorem heldQuery_of_stores {entry : CacheQuery} {held : Option (List Byte)}
    (hstores : Stores db entry held) : heldQuery entry = held := by
  cases hstores with
  | free => exact if_pos (untilNul_zeros 256)
  | query hproper hquery =>
    rw [heldQuery, hquery, untilNul_append_zero (zero_notMem_deviceQuery hproper),
      if_neg (deviceQuery_ne_nil _)]

/-- The search in an entry succeeds exactly when the entry stands for the query. -/
theorem searchRegion_of_stores {entry : CacheQuery} {held : Option (List Byte)}
    {userAgent : List Byte} (hstores : Stores db entry held) (hproper : ProperAgent userAgent) :
    searchRegion entry.query (deviceQuery userAgent) =
      some (decide (held = some (deviceQuery userAgent))) := by
  cases hstores with
  | free =>
    have hfree : freeEntry.query = [] ++ 0 :: zeros 255 := rfl
    rw [hfree, searchRegion_append_zero List.not_mem_nil, strstr,
      if_neg (deviceQuery_ne_nil userAgent)]
    simp
  | @query entry userAgent' rest hproper' hquery =>
    have hfound := (isSome_strstr (deviceQuery userAgent') (deviceQuery userAgent)).trans
      (deviceQuery_infix_iff hproper hproper')
    rw [hquery, searchRegion_append_zero (zero_notMem_deviceQuery hproper'), Option.some.injEq,
      Bool.eq_iff_iff, hfound, decide_eq_true_iff, Option.some.injEq, eq_comm]

/-- The entries of the cache stand for the given queries. -/
def Mirrors (db : List Byte → Option DeviceRow) (queries : QueryCache)
    (slots : Fin 256 → Option (List Byte)) : Prop :=
  ∀ i, Stores db (queries.cache i) (slots i)

/-- The search in the cache finds an entry that stands for the query, if there is one. -/
theorem searchCache_spec {queries : QueryCache} {slots : Fin 256 → Option (List Byte)}
    {userAgent : List Byte} (hmirrors : Mirrors db queries slots)
    (hproper : ProperAgent userAgent) :
    (∃ i, searchCache queries.cache (deviceQuery userAgent) = some (some i) ∧
      slots i = some (deviceQuery userAgent)) ∨
      (searchCache queries.cache (deviceQuery userAgent) = some none ∧
        ∀ i, slots i ≠ some (deviceQuery userAgent)) := by
  have hsearch : ∀ indices,
      (∃ i, searchQueries queries.cache (deviceQuery userAgent) indices = some (some i) ∧
        slots i = some (deviceQuery userAgent)) ∨
        (searchQueries queries.cache (deviceQuery userAgent) indices = some none ∧
          ∀ i ∈ indices, slots i ≠ some (deviceQuery userAgent)) := by
    intro indices
    induction indices with
    | nil => exact Or.inr ⟨rfl, by simp⟩
    | cons i rest ih =>
      rw [searchQueries, searchRegion_of_stores (hmirrors i) hproper, Option.bind_some]
      by_cases hheld : slots i = some (deviceQuery userAgent)
      · rw [if_pos (by simpa using hheld)]
        exact Or.inl ⟨i, rfl, hheld⟩
      · rw [if_neg (by simpa using hheld)]
        rcases ih with hfound | ⟨hnone, hrest⟩
        · exact Or.inl hfound
        · refine Or.inr ⟨hnone, fun j hj ↦ ?_⟩
          rcases List.mem_cons.mp hj with rfl | hj
          · exact hheld
          · exact hrest j hj
  rcases hsearch (List.finRange 256) with hfound | ⟨hnone, hall⟩
  · exact Or.inl hfound
  · exact Or.inr ⟨hnone, fun i ↦ hall i (List.mem_finRange i)⟩

/-- The insertion of the answer of the database to a query. -/
theorem mirrors_insert {queries : QueryCache} {slots : Fin 256 → Option (List Byte)}
    {userAgent : List Byte} (hmirrors : Mirrors db queries slots)
    (hproper : ProperAgent userAgent) :
    Mirrors db
      (insertQuery queries (deviceQuery userAgent)
        (fetchedDimensions (db (deviceQuery userAgent)))
        (storedState (db (deviceQuery userAgent))))
      (Function.update slots (nextSlot queries.idxCache) (some (deviceQuery userAgent))) := by
  intro i
  by_cases hnext : i = nextSlot queries.idxCache
  · subst hnext
    rw [Function.update_self, insertQuery]
    simp only [Function.update_self]
    have hwritten : ∀ region : List Byte, overwrite region 0 (deviceQuery userAgent ++ [0]) =
        deviceQuery userAgent ++ 0 :: region.drop (deviceQuery userAgent ++ [0]).length := by
      intro region
      simp [overwrite]
    exact .query hproper (hwritten _) rfl (fetchedDimensions_eq _)
  · rw [Function.update_of_ne hnext, insertQuery]
    simp only [Function.update_of_ne hnext]
    exact hmirrors i

/-- An entry that was found gives the dimensions of the answer. -/
theorem readQuery_of_stores {queries : QueryCache} {i : Fin 256} {query : List Byte}
    (hstores : Stores db (queries.cache i) (some query)) :
    readQuery queries i = dimensionsOf (db query) ∧
      (queries.cache i).state = storedState (db query) := by
  generalize hentry : queries.cache i = entry at hstores
  cases hstores with
  | query hproper hquery hstate hdimensions =>
    rw [readQuery, hentry]
    exact ⟨hdimensions, hstate⟩

/-- An entry whose state says so stands for a query without a row. -/
theorem eq_none_of_storedState {answer : Option DeviceRow}
    (hstate : storedState answer = .noValueInDB) : answer = none := by
  cases answer with
  | none => rfl
  | some row => simp [storedState] at hstate

/-! ### Sequences of requests -/

/-- The cache with the answers that were given and the queries that missed. -/
structure QuerySession where
  queries : QueryCache
  answers : List Dimensions
  missed : List (List Byte)

/-- A request. A query missed when it was sent to the database. -/
def queryStep (arith : Arithmetic) (beyond : List Byte) (db : List Byte → Option DeviceRow)
    (session : QuerySession) (request : DeviceRequest) : Option QuerySession :=
  (retrieveDimFromDB arith beyond db session.queries request.toDimRequest).map fun retrieval ↦
    { queries := retrieval.queries
      answers := session.answers ++ [retrieval.dimensions]
      missed := session.missed ++ retrieval.sent }

/-- The start of the program. -/
def startSession : QuerySession where
  queries := emptyQueries
  answers := []
  missed := []

/-- What a request does: it is answered from an entry that stands for its query, or its query is
sent to the database and inserted. Either way it gets the dimensions of the answer. -/
theorem retrieveDimFromDB_spec (arith : Arithmetic) (beyond : List Byte) {queries : QueryCache}
    {slots : Fin 256 → Option (List Byte)} (hmirrors : Mirrors db queries slots)
    (request : DeviceRequest) :
    ∃ retrieval,
      retrieveDimFromDB arith beyond db queries request.toDimRequest = some retrieval ∧
      retrieval.dimensions = dimensionsOf (db request.query) ∧
      ((retrieval.queries = queries ∧ retrieval.sent = [] ∧
          ∃ i, slots i = some request.query) ∨
        (retrieval.sent = [request.query] ∧ (∀ i, slots i ≠ some request.query) ∧
          retrieval.queries = insertQuery queries request.query
            (fetchedDimensions (db request.query)) (storedState (db request.query)))) := by
  unfold retrieveDimFromDB
  simp only [tmpQuery_eq request.proper, Option.bind_some]
  rcases searchCache_spec hmirrors request.proper with ⟨i, hsearch, hheld⟩ | ⟨hsearch, hfree⟩
  · have hstores := hmirrors i
    rw [hheld] at hstores
    obtain ⟨hread, hstate⟩ := readQuery_of_stores hstores
    simp only [hsearch, Option.map_some]
    split_ifs with hnone
    · rw [hstate] at hnone
      have hdimensions : noDimensions = dimensionsOf (db request.query) := by
        rw [DeviceRequest.query, eq_none_of_storedState hnone]
        rfl
      exact ⟨_, rfl, hdimensions, Or.inl ⟨rfl, rfl, i, hheld⟩⟩
    · exact ⟨_, rfl, hread, Or.inl ⟨rfl, rfl, i, hheld⟩⟩
  · simp only [hsearch, Option.map_some]
    exact ⟨_, rfl, fetchedDimensions_eq _, Or.inr ⟨rfl, hfree, rfl⟩⟩

/-- The state between two requests: the entries stand for the last 256 queries that missed. -/
structure Remembers (db : List Byte → Option DeviceRow) (session : QuerySession)
    (slots : Fin 256 → Option (List Byte)) : Prop where
  mirrors : Mirrors db session.queries slots
  holdsLast : HoldsLast slots session.missed
  distinct : DistinctSlots slots
  idxCache_eq : session.queries.idxCache = session.missed.length % 2 ^ 64

/-- The counter is taken modulo the size of the cache, and its own overflow does not show. -/
theorem mod_size_of_idxCache {queries : QueryCache} {count : ℕ}
    (hidx : queries.idxCache = count % 2 ^ 64) :
    count % 256 = nextSlot queries.idxCache ∧ (queries.idxCache + 1) % 2 ^ 64 =
      (count + 1) % 2 ^ 64 := by
  rw [nextSlot, hidx]
  refine ⟨?_, Nat.mod_add_mod ..⟩
  exact (Nat.mod_mod_of_dvd count (by norm_num)).symm

/-- A request is answered as the database answers, and the cache goes on remembering. -/
theorem remembers_step (arith : Arithmetic) (beyond : List Byte) {session : QuerySession}
    {slots : Fin 256 → Option (List Byte)} (hremembers : Remembers db session slots)
    (request : DeviceRequest) :
    ∃ session' slots', queryStep arith beyond db session request = some session' ∧
      session'.answers = session.answers ++ [dimensionsOf (db request.query)] ∧
      (request.query ∉ session.missed → session'.missed = session.missed ++ [request.query]) ∧
      Remembers db session' slots' := by
  obtain ⟨retrieval, hretrieve, hdimensions, hcases⟩ :=
    retrieveDimFromDB_spec arith beyond hremembers.mirrors request
  unfold queryStep
  rw [hretrieve, Option.map_some, hdimensions]
  rcases hcases with ⟨hqueries, hsent, i, hheld⟩ | ⟨hsent, hfree, hqueries⟩
  · have hmissed := hremembers.holdsLast.mem hheld
    refine ⟨_, slots, rfl, rfl, fun hfresh ↦ absurd hmissed hfresh, ?_⟩
    rw [hqueries, hsent, List.append_nil]
    exact { hremembers with }
  · obtain ⟨hslot, hcount⟩ := mod_size_of_idxCache hremembers.idxCache_eq
    refine ⟨_, Function.update slots (nextSlot session.queries.idxCache) (some request.query), rfl,
      rfl, fun _ ↦ by rw [hsent], ?_⟩
    rw [hqueries, hsent]
    constructor
    · exact mirrors_insert hremembers.mirrors request.proper
    · exact hremembers.holdsLast.push hslot request.query
    · exact hremembers.distinct.push hfree _
    · show (session.queries.idxCache + 1) % 2 ^ 64 = _
      rw [hcount, List.length_append, List.length_singleton]

/-- At the start the cache remembers nothing. -/
theorem remembers_startSession : Remembers db startSession fun _ ↦ none where
  mirrors := fun _ ↦ .free
  holdsLast := holdsLast_nil
  distinct := distinctSlots_none
  idxCache_eq := rfl

/-- Every sequence of requests gets the dimensions that the database has, and leaves the last 256
queries that missed in the cache, each one in its slot and none of them twice. -/
theorem retrieveDimFromDB_transparent (arith : Arithmetic) (beyond : List Byte)
    (db : List Byte → Option DeviceRow) (requests : List DeviceRequest) :
    ∃ session, run (queryStep arith beyond db) startSession requests = some session ∧
      session.answers = requests.map (fun request ↦ dimensionsOf (db request.query)) ∧
      HoldsLast (fun i ↦ heldQuery (session.queries.cache i)) session.missed ∧
      DistinctSlots (fun i ↦ heldQuery (session.queries.cache i)) := by
  have hrun : ∃ session slots,
      run (queryStep arith beyond db) startSession requests = some session ∧
      session.answers = requests.map (fun request ↦ dimensionsOf (db request.query)) ∧
      Remembers db session slots := by
    induction requests using List.reverseRecOn with
    | nil => exact ⟨startSession, _, rfl, rfl, remembers_startSession⟩
    | append_singleton requests request ih =>
      obtain ⟨session, slots, hrun, hanswers, hremembers⟩ := ih
      obtain ⟨session', slots', hstep, hanswers', -, hremembers'⟩ :=
        remembers_step arith beyond hremembers request
      refine ⟨session', slots', ?_, ?_, hremembers'⟩
      · rw [run_append, hrun, Option.bind_some, run_cons, hstep]
        rfl
      · rw [hanswers', hanswers, List.map_append]
        rfl
  obtain ⟨session, slots, hrun, hanswers, hremembers⟩ := hrun
  have hheld : (fun i ↦ heldQuery (session.queries.cache i)) = slots :=
    funext fun i ↦ heldQuery_of_stores (hremembers.mirrors i)
  rw [← hheld] at hremembers
  exact ⟨session, hrun, hanswers, hremembers.holdsLast, hremembers.distinct⟩

end ImageApp.Queries
