import ImageApp.Server.Config
import Mathlib.Data.Fin.Basic
import Mathlib.Logic.Function.Basic

/-!
# Threads of a pool

The slot of a worker thread and the functions of `ThreadPool.c` that change it: the stores of
`dispatch_job` for a new connection, `close_client_with_status`, and `handle_timer`. What a function
does outside the slot is a list of effects, in the order of the calls.

The fields that only serve the database and the thread library are left out, and so is the array
index of the thread, which its own functions use to find the slot again.
-/

set_option autoImplicit false
set_option relaxedAutoImplicit false

namespace ImageApp.Server

open Foundations.CStrings

/-- The descriptors that `accept` can return. -/
abbrev Descriptor := Fin (2 ^ 31)

/-- Zero is a descriptor. -/
instance neZeroDescriptors : NeZero (2 ^ 31) :=
  ⟨by decide⟩

/-- A slot has five messages. -/
instance neZeroMessages : NeZero 5 :=
  ⟨by decide⟩

/-- The address and the port of a client, `struct sockaddr_in`. -/
abbrev SockaddrIn := UInt32 × UInt16

/-- The slot of a worker, `struct thread_data`. -/
structure ThreadData where
  connSd : Descriptor
  clientAddr : SockaddrIn
  message : Fin 5 → List Byte
  msgReceived : ℤ
  timer : ℤ
  request : ℤ
  used : ℤ

/-- The events that the log keeps track of; the two closing paths log the status of the connection.
-/
inductive LogEvent
  | imageRequested
  | imageNotPresent
  | closed (status : RqstStat)
  deriving DecidableEq, Repr

/-- What `send_image` is asked to send. -/
inductive SentImage
  | adapted
  | icon
  | none
  deriving DecidableEq, Repr

/-- What a worker does outside its slot. -/
inductive Effect
  | sendServiceUnavailable (sd : Descriptor)
  | sendBadRequest (sd : Descriptor)
  | sendImage (sd : Descriptor) (image : SentImage) (cmd : RqstStat)
  | decrementMaxDescriptor
  | writeEventLog (event : LogEvent) (clientAddr : SockaddrIn)
  | shutdown (sd : Descriptor)
  | close (sd : Descriptor)
  | signalNotFull
  | decrementCounter
  | createRequest (imageName : Storage)
  | createImage
  | destroyRequest (status : RqstStat)
  | destroyImage
  deriving DecidableEq, Repr

/-- A slot as `allocate_pool` leaves it: `calloc` has zeroed the fields and the five messages. -/
def allocatedThread : ThreadData where
  connSd := 0
  clientAddr := (0, 0)
  message := fun _ ↦ zeros httpMessageSize
  msgReceived := 0
  timer := 0
  request := 0
  used := -1

/-- The stores of `dispatch_job` for a new connection. -/
def assignConnection (td : ThreadData) (connSd : Descriptor) (clientAddr : SockaddrIn) :
    ThreadData :=
  { td with
    connSd := connSd
    clientAddr := clientAddr
    timer := 5
    request := 1000
    msgReceived := 1
    used := 1 }

/-- `close_client_with_status`. -/
def closeClientWithStatus (td : ThreadData) (status : RqstStat) : ThreadData × List Effect :=
  ({ td with used := -1, timer := 5, msgReceived := 0, request := 1000 },
    [.decrementMaxDescriptor, .writeEventLog (.closed status) td.clientAddr] ++
      if status = .connectionClosed then
        [.shutdown td.connSd, .close td.connSd, .signalNotFull, .decrementCounter]
      else [])

/-- `handle_timer` on the results of its calls of `poll`: the slot, the value returned, and the
results that are left. It goes on polling when the results run out. -/
def handleTimer (td : ThreadData) : List ℤ → Option (ThreadData × ℤ × List ℤ)
  | [] => none
  | ready :: rest =>
    if td.timer = 0 then
      if ready = 1 then
        some ({ td with msgReceived := 1, request := td.request - 1, timer := 5 }, 1, rest)
      else some (td, 0, rest)
    else if ready = 1 then
      some ({ td with timer := td.timer - 1, msgReceived := 1, request := td.request - 1 },
        td.timer - 1, rest)
    else handleTimer { td with timer := td.timer - 1 } rest

/-! ### What the functions leave alone -/

/-- `handle_timer` keeps the connection, the messages and the assignment of the slot. -/
theorem handleTimer_frame {td td' : ThreadData} {polls rest : List ℤ} {timer : ℤ}
    (hrun : handleTimer td polls = some (td', timer, rest)) :
    td'.connSd = td.connSd ∧ td'.message = td.message ∧ td'.used = td.used := by
  induction polls generalizing td with
  | nil => simp [handleTimer] at hrun
  | cons ready polls ih =>
    simp only [handleTimer] at hrun
    split_ifs at hrun with hzero hready hready
    · simp only [Option.some.injEq, Prod.mk.injEq] at hrun
      rw [← hrun.1]
      exact ⟨rfl, rfl, rfl⟩
    · simp only [Option.some.injEq, Prod.mk.injEq] at hrun
      rw [← hrun.1]
      exact ⟨rfl, rfl, rfl⟩
    · simp only [Option.some.injEq, Prod.mk.injEq] at hrun
      rw [← hrun.1]
      exact ⟨rfl, rfl, rfl⟩
    · have hframe := ih hrun
      exact hframe

/-- A client that `handle_timer` keeps has its next request announced. -/
theorem msgReceived_of_handleTimer {td td' : ThreadData} {polls rest : List ℤ} {timer : ℤ}
    (hrun : handleTimer td polls = some (td', timer, rest)) (htimer : timer ≠ 0) :
    td'.msgReceived = 1 := by
  induction polls generalizing td with
  | nil => simp [handleTimer] at hrun
  | cons ready polls ih =>
    simp only [handleTimer] at hrun
    split_ifs at hrun with hzero hready hready
    · simp only [Option.some.injEq, Prod.mk.injEq] at hrun
      rw [← hrun.1]
    · simp only [Option.some.injEq, Prod.mk.injEq] at hrun
      exact absurd hrun.2.1.symm htimer
    · simp only [Option.some.injEq, Prod.mk.injEq] at hrun
      rw [← hrun.1]
    · exact ih hrun

/-- `close_client_with_status` resets what `handle_timer` changes. -/
theorem closeClientWithStatus_of_handleTimer {td td' : ThreadData} {polls rest : List ℤ} {timer : ℤ}
    (hrun : handleTimer td polls = some (td', timer, rest)) (status : RqstStat) :
    (closeClientWithStatus td' status).1 = (closeClientWithStatus td status).1 := by
  induction polls generalizing td with
  | nil => simp [handleTimer] at hrun
  | cons ready polls ih =>
    simp only [handleTimer] at hrun
    split_ifs at hrun with hzero hready hready
    · simp only [Option.some.injEq, Prod.mk.injEq] at hrun
      rw [← hrun.1]
      rfl
    · simp only [Option.some.injEq, Prod.mk.injEq] at hrun
      rw [hrun.1]
    · simp only [Option.some.injEq, Prod.mk.injEq] at hrun
      rw [← hrun.1]
      rfl
    · have hclosed := ih hrun
      exact hclosed

end ImageApp.Server
