import ImageApp.Foundations.CyclicScan
import ImageApp.Server.ThreadPool

/-!
# The ring of a pool

The slots of a pool and `get_E`, which looks for a free one. `getE` is one pass of its outer loop:
it is `none` when the scan finds no free slot, after which the function waits. `dispatchTo` is what
`dispatch_job` does with the slot, and `releaseSlot` the part of `close_client_with_status` inside
the slot. The counter of occupied slots is left out, which no function reads.
-/

set_option autoImplicit false
set_option relaxedAutoImplicit false

namespace ImageApp.Server

open Foundations.CyclicScan

/-- `struct pool_t`. -/
structure PoolT (numThreadPool : ℕ) where
  e : ℕ
  arr : Fin numThreadPool → ThreadData

/-- A pool as `allocate_pool` leaves it. -/
def allocatedPool (numThreads : ℕ) : PoolT numThreads where
  e := 0
  arr := fun _ ↦ allocatedThread

variable {numThreadPool : ℕ}

/-- The test of `get_E`. -/
def isFree (pool : PoolT numThreadPool) (nE : Fin numThreadPool) : Bool :=
  (pool.arr nE).used == -1

/-- A pass of the outer loop of `get_E`: the free slot and the pool, with the index at which the
next scan starts. -/
def getE [NeZero numThreadPool] (pool : PoolT numThreadPool) :
    Option (Fin numThreadPool × PoolT numThreadPool) :=
  (scan (isFree pool) pool.e 0 numThreadPool).map fun nE ↦
    (nE, { pool with e := (nE + 1) % numThreadPool })

/-- The stores of `dispatch_job` into the slot that it was given. -/
def dispatchTo (pool : PoolT numThreadPool) (nE : Fin numThreadPool) (connSd : Descriptor)
    (clientAddr : SockaddrIn) : PoolT numThreadPool :=
  { pool with
    arr := Function.update pool.arr nE (assignConnection (pool.arr nE) connSd clientAddr) }

/-- The stores of `close_client_with_status` into a slot. -/
def releaseSlot (pool : PoolT numThreadPool) (nE : Fin numThreadPool) : PoolT numThreadPool :=
  { pool with
    arr := Function.update pool.arr nE (closeClientWithStatus (pool.arr nE) .connectionClosed).1 }

theorem isFree_iff (pool : PoolT numThreadPool) (nE : Fin numThreadPool) :
    isFree pool nE = true ↔ (pool.arr nE).used = -1 :=
  beq_iff_eq

/-! ### What the functions do to the test -/

@[simp] theorem isFree_setE (pool : PoolT numThreadPool) (e : ℕ) (nE : Fin numThreadPool) :
    isFree { pool with e := e } nE = isFree pool nE :=
  rfl

/-- A slot that was given a connection is not free. -/
@[simp] theorem isFree_dispatchTo_self (pool : PoolT numThreadPool) (nE : Fin numThreadPool)
    (connSd : Descriptor) (clientAddr : SockaddrIn) :
    isFree (dispatchTo pool nE connSd clientAddr) nE = false := by
  simp only [isFree, dispatchTo, Function.update_self]
  rfl

@[simp] theorem isFree_dispatchTo_of_ne (pool : PoolT numThreadPool)
    {nE other : Fin numThreadPool} (hne : other ≠ nE) (connSd : Descriptor)
    (clientAddr : SockaddrIn) :
    isFree (dispatchTo pool nE connSd clientAddr) other = isFree pool other := by
  simp only [isFree, dispatchTo, Function.update_of_ne hne]

/-- A released slot is free. -/
@[simp] theorem isFree_releaseSlot_self (pool : PoolT numThreadPool) (nE : Fin numThreadPool) :
    isFree (releaseSlot pool nE) nE = true := by
  simp only [isFree, releaseSlot, Function.update_self]
  rfl

@[simp] theorem isFree_releaseSlot_of_ne (pool : PoolT numThreadPool)
    {nE other : Fin numThreadPool} (hne : other ≠ nE) :
    isFree (releaseSlot pool nE) other = isFree pool other := by
  simp only [isFree, releaseSlot, Function.update_of_ne hne]

/-! ### `get_E` -/

variable [NeZero numThreadPool]

/-- What `get_E` returns: a free slot, and a pool in which only the start of the next scan has
changed. -/
theorem getE_eq_some {pool pool' : PoolT numThreadPool} {nE : Fin numThreadPool}
    (hget : getE pool = some (nE, pool')) :
    scan (isFree pool) pool.e 0 numThreadPool = some nE ∧
      pool' = { pool with e := (nE + 1) % numThreadPool } := by
  obtain ⟨found, hscan, heq⟩ := Option.map_eq_some_iff.mp hget
  rw [Prod.mk.injEq] at heq
  exact ⟨heq.1 ▸ hscan, heq.1 ▸ heq.2.symm⟩

/-- `get_E` finds a slot in its first pass exactly when one is free. -/
theorem isSome_getE_iff {pool : PoolT numThreadPool} (hstart : pool.e < numThreadPool) :
    (getE pool).isSome = true ↔ ∃ nE, isFree pool nE = true := by
  rw [getE, Option.isSome_map, Option.isSome_iff_exists]
  constructor
  · rintro ⟨nE, hscan⟩
    exact ⟨nE, (scan_spec hstart hscan).1⟩
  · rintro ⟨nE, hfree⟩
    exact exists_scan_of_test hstart hfree

end ImageApp.Server
