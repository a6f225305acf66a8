import Mathlib.Algebra.Group.Int.Defs
import Mathlib.Algebra.Group.Nat.Defs
import Mathlib.Data.List.Lex
import Mathlib.Order.Defs.LinearOrder

/-!
# Jobs, client entries and reservations

The records of the package `state`.  Strings and byte slices of the source are
lists of bytes, which compare as Go compares strings; machine integers are the
fixed-width integers of the source, so that their sums wrap as they do there.
A nil byte slice is `none`.

`Job` is the interface value that the state machine works on.  It has two
implementations: `localJob`, which `NewJob` makes, and `wrapJob`, which a
restored snapshot makes out of a protobuf record.
-/

namespace Coolbeans

instance byteOrder : LinearOrder UInt8 where
  le_refl := UInt8.le_refl
  le_trans := fun _ _ _ => UInt8.le_trans
  le_antisymm := fun _ _ => UInt8.le_antisymm
  le_total := UInt8.le_total
  toDecidableLE := inferInstance
  lt_iff_le_not_ge := Std.LawfulOrderLT.lt_iff
  min_def _ _ := rfl
  max_def _ _ := rfl

abbrev Bytes := List UInt8

instance bytes_lawfulBEq : LawfulBEq Bytes :=
  inferInstance

abbrev JobID := UInt64
abbrev TubeName := Bytes
abbrev ClientID := Bytes
abbrev ReqID := Bytes

/-- The state of a job. -/
inductive JobState where
  | initial
  | ready
  | reserved
  | buried
  | delayed
  | deleted
  deriving DecidableEq, Repr, Inhabited

/-- The two implementations of the job interface. -/
inductive JobImpl where
  | localJob
  | wrapJob
  deriving DecidableEq, Repr, Inhabited

/-- A job, with the fields that the job interface reads. -/
structure Job where
  impl : JobImpl := .localJob
  id : JobID
  priority : UInt32
  delay : Int64
  ttr : Int64
  bodySize : Int64
  body : Option Bytes
  tubeName : TubeName
  createdAt : Int64
  readyAt : Int64
  state : JobState
  expiresAt : Int64 := 0
  reservedBy : ClientID := []
  buriedAt : Int64 := 0
  reserveCount : UInt32 := 0
  timeoutCount : UInt32 := 0
  releaseCount : UInt32 := 0
  buryCount : UInt32 := 0
  kickCount : UInt32 := 0
  deriving DecidableEq, Repr, Inhabited

namespace Job

def updatePriority (newPriority : UInt32) (job : Job) : Job :=
  { job with priority := newPriority }

def updateDelay (newDelay : Int64) (job : Job) : Job :=
  { job with delay := newDelay }

def updateReadyAt (nowSeconds : Int64) (job : Job) : Job :=
  { job with readyAt := nowSeconds + job.delay }

/-- A `localJob` that leaves the buried state forgets when it was buried; a
`wrapJob` does not. -/
def updateState (newState : JobState) (job : Job) : Job :=
  match job.impl with
  | .localJob =>
      { job with
        buriedAt := if job.state = .buried then 0 else job.buriedAt
        state := newState }
  | .wrapJob => { job with state := newState }

theorem updateState_eq (newState : JobState) (job : Job) :
    job.updateState newState =
      { job with
        buriedAt := if job.impl = .localJob ∧ job.state = .buried then 0 else job.buriedAt
        state := newState } := by
  unfold updateState
  split <;> rename_i impl <;> simp [impl]

def updateReservation (nowSeconds : Int64) (job : Job) : Job :=
  { job with expiresAt := nowSeconds + job.ttr }

def updateReservedBy (clientID : ClientID) (job : Job) : Job :=
  { job with reservedBy := clientID }

def updateBuriedAt (nowSeconds : Int64) (job : Job) : Job :=
  { job with buriedAt := nowSeconds }

def resetBuriedAt (job : Job) : Job :=
  { job with buriedAt := 0 }

def incReserveCount (job : Job) : Job :=
  { job with reserveCount := job.reserveCount + 1 }

def incTimeoutCount (job : Job) : Job :=
  { job with timeoutCount := job.timeoutCount + 1 }

def incReleaseCount (job : Job) : Job :=
  { job with releaseCount := job.releaseCount + 1 }

def incBuryCount (job : Job) : Job :=
  { job with buryCount := job.buryCount + 1 }

def incKickCount (job : Job) : Job :=
  { job with kickCount := job.kickCount + 1 }

attribute [simp] updatePriority updateDelay updateReadyAt updateState_eq updateReservation
  updateReservedBy updateBuriedAt resetBuriedAt incReserveCount incTimeoutCount incReleaseCount
  incBuryCount incKickCount

end Job

/-- An entry of a job heap: the job it embeds, and its position. -/
structure JobEntry where
  job : Nat
  index : Int
  deriving DecidableEq, Repr, Inhabited

/-- A client's reservation entry.  The client's id is the one field that never
changes; the pointers to the entry carry it. -/
structure ClientResvEntry where
  watchedTubes : List TubeName
  resvDeadlineAt : Int64
  isWaitingForResv : Bool
  tickAt : Int64
  reqID : ReqID
  heapIndex : Int
  deriving DecidableEq, Repr, Inhabited

/-- The status of a reservation. -/
inductive ReservationStatus where
  | unknown
  | queued
  | deadlineSoon
  | matched
  | timeout
  | error
  deriving DecidableEq, Repr, Inhabited

/-- The errors of the package `state`. -/
inductive Err where
  | invalidIndex
  | mismatchJobEntry
  | entryExists
  | entryMissing
  | containerEmpty
  | invalidJobTransition
  | invalidOperation
  | unauthorizedOperation
  | cancel
  | noReservationFound
  | invalidResvTimeout
  | clientIsWaitingForReservation
  deriving DecidableEq, Repr, Inhabited

/-- The places where the state machine can panic.  The first group are its own
calls to `Panicf`, named after the call that failed; then come the run-time
panics of the language, and last the model's bound on the rounds of a loop,
which stands for a loop that never ends. -/
inductive Panic where
  | enqueueToWaitQ
  | tryReserveJob
  | peekDelayedJob
  | ready
  | peekReadyJob
  | dequeueFromWaitQ
  | notWaitingForResv
  | reserve
  | nextReservedJob
  | clientHeapRemove
  | clientsRemove
  | release
  | unReserve
  | restoreClient
  | nilPointer
  | indexOutOfRange
  | loopForever
  deriving DecidableEq, Repr, Inhabited

/-- The answer to a reservation request. -/
structure Reservation where
  requestId : ReqID
  clientId : ClientID
  jobId : JobID
  status : ReservationStatus
  bodySize : Int64
  body : Option Bytes
  error : Option Err
  deriving DecidableEq, Repr, Inhabited

/-! ## The comparisons of the job heaps -/

/-- Compare two jobs by a field, and by their ids when the field is equal. -/
def fieldThenIdLess {κ : Type} [DecidableEq κ] [LT κ] [DecidableLT κ]
    (field : Job → κ) (first second : Job) : Bool :=
  if field first = field second then
    decide (first.id < second.id)
  else
    decide (field first < field second)

def priorityJobsLess : Job → Job → Bool := fieldThenIdLess Job.priority

def delayedJobsLess : Job → Job → Bool := fieldThenIdLess Job.readyAt

def reservedJobsLess : Job → Job → Bool := fieldThenIdLess Job.expiresAt

def buriedJobsLess : Job → Job → Bool := fieldThenIdLess Job.buriedAt

end Coolbeans
