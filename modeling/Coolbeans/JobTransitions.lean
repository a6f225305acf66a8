import Coolbeans.JobStateMachine

/-!
# The transitions of a job

The operations on single jobs, as `localJSM` computes them: the transitions
between the states of a job, and the commands that make them.  An operation
that fails keeps the writes it made before the failure.
-/

namespace Coolbeans

open StatefulProgram

/-- `NextJobID` -/
def nextJobID : JSMProg JobID := do
  Prog.modify fun jsm => { jsm with maxJobID := jsm.maxJobID + 1 }
  Prog.gets (·.maxJobID)

/-- Allocate a job. -/
def JSM.allocJob (job : Job) (jsm : JSM) : JSM :=
  { jsm with
    jobAt := fun read => if read = jsm.nextJob then job else jsm.jobAt read
    nextJob := jsm.nextJob + 1 }

def allocJob (job : Job) : JSMProg Nat := do
  let addr ← Prog.gets (·.nextJob)
  Prog.modify (JSM.allocJob job)
  pure addr

def updateJob (job : Nat) (change : Job → Job) : JSMProg Unit :=
  Prog.modify (JSM.updateJob job change)

def readJob (job : Nat) : JSMProg Job :=
  Prog.gets (·.jobAt job)

theorem readJob_bind {α : Type} (job : Nat) (next : Job → JSMProg α) (jsm : JSM) :
    (readJob job >>= next) jsm = next (jsm.jobAt job) jsm :=
  rfl

/-- A job that has just been made goes to its first state. -/
def fromInitialTo (state : JobState) (enqueue : Nat → JSMProg Nat) (job : Nat) :
    JSMProg Unit := do
  let record ← readJob job
  Prog.require (record.state = .initial) .invalidJobTransition
  JobIndex.add job
  updateJob job (Job.updateState state)
  let entry ← enqueue job
  JobIndex.setEntry record.id job entry

def fromInitialToReady : Nat → JSMProg Unit := fromInitialTo .ready enqueueReadyJob

def fromInitialToDelayed : Nat → JSMProg Unit := fromInitialTo .delayed enqueueDelayedJob

/-- Lower the clock of the next delay tick to `readyAt`. -/
def JSM.lowerNextDelayTickAt (readyAt : Int64) (jsm : JSM) : JSM :=
  if readyAt < jsm.nextDelayTickAt then { jsm with nextDelayTickAt := readyAt } else jsm

/-- The record that `NewJob` makes. -/
def Job.initial (id : JobID) (nowSeconds : Int64) (priority : UInt32)
    (delay ttr bodySize : Int64) (body : Option Bytes) (tubeName : TubeName) : Job where
  id := id
  priority := priority
  delay := delay
  ttr := ttr
  bodySize := bodySize
  body := body
  tubeName := tubeName
  createdAt := nowSeconds
  readyAt := nowSeconds + delay
  state := .initial

/-- `NewJob` -/
def newJob (nowSeconds : Int64) (priority : UInt32) (delay ttr bodySize : Int64)
    (body : Option Bytes) (tubeName : TubeName) : JSMProg JobID := do
  let id ← nextJobID
  let job ← allocJob (.initial id nowSeconds priority delay ttr bodySize body tubeName)
  if delay > 0 then do
    Prog.modify (JSM.lowerNextDelayTickAt (nowSeconds + delay))
    fromInitialToDelayed job
    pure id
  else do
    fromInitialToReady job
    pure id

/-- `Put` -/
def put (nowSeconds : Int64) (priority : UInt32) (delay ttr bodySize : Int64)
    (body : Option Bytes) (tubeName : TubeName) : JSMProg JobID :=
  newJob nowSeconds priority delay ttr bodySize body tubeName

/-- `GetJob` -/
def getJob (jobID : JobID) : JSMProg Job := do
  let found ← JobIndex.get jobID
  readJob found.job

/-- The heap entry of an indexed job. -/
def IndexEntry.heapEntry (found : IndexEntry) : JSMProg Nat :=
  Prog.deref .nilPointer found.entry

/-- `Delete` -/
def delete (jobID : JobID) (clientID : ClientID) : JSMProg Unit := do
  let found ← JobIndex.get jobID
  let record ← readJob found.job
  Prog.require (¬ (record.state = .reserved ∧ record.reservedBy ≠ clientID))
    .unauthorizedOperation
  let found ← JobIndex.remove jobID
  -- a buried job has no case here: its entry stays in the buried heap
  match record.state with
  | .ready => do
      let entry ← found.heapEntry
      let _ ← removeReadyJob entry
      updateJob found.job fun job => (job.updateState .deleted).updateReservedBy []
  | .delayed => do
      let entry ← found.heapEntry
      let _ ← removeDelayedJob entry
      updateJob found.job fun job => (job.updateState .deleted).updateReservedBy []
  | .reserved => do
      let entry ← found.heapEntry
      let _ ← removeReservedJob entry
      updateJob found.job fun job => (job.updateState .deleted).updateReservedBy []
  | _ => updateJob found.job fun job => (job.updateState .deleted).updateReservedBy []

/-- `PeekDelayedJob` -/
def peekDelayedJob : TubeName → JSMProg Nat := nextDelayedJob

/-- `PeekReadyJob` -/
def peekReadyJob : TubeName → JSMProg Nat := nextReadyJob

/-- `PeekBuriedJob` -/
def peekBuriedJob : TubeName → JSMProg Nat := nextBuriedJob

/-- A client may act on a reserved job if it is the owner, or if it leaves its
id empty. -/
def checkOwner (record : Job) (clientID : ClientID) : JSMProg Unit :=
  Prog.require (¬ (0 < clientID.length ∧ record.reservedBy ≠ clientID)) .unauthorizedOperation

/-- The shape of a transition: an indexed job that passes the guard leaves the
container that holds it, changes, and enters another one. -/
def moveJob (jobID : JobID) (guard : IndexEntry → Job → JSMProg Unit)
    (remove : Nat → JSMProg Nat) (change : Job → Job) (enqueue : Nat → JSMProg Nat) :
    JSMProg Unit := do
  let found ← JobIndex.get jobID
  let record ← readJob found.job
  guard found record
  let entry ← found.heapEntry
  let _ ← remove entry
  updateJob found.job change
  let newEntry ← enqueue found.job
  JobIndex.setEntry jobID found.job newEntry

/-- The guard of the transitions that a client asks for on a reserved job. -/
def reservedGuard (error : Err) (clientID : ClientID) (_ : IndexEntry) (record : Job) :
    JSMProg Unit := do
  Prog.require (record.state = .reserved) error
  checkOwner record clientID

/-- The guard of the other transitions. -/
def stateGuard (state : JobState) (_ : IndexEntry) (record : Job) : JSMProg Unit :=
  Prog.require (record.state = state) .invalidJobTransition

/-- Only the first delayed job of a tube may become ready. -/
def delayedGuard (found : IndexEntry) (record : Job) : JSMProg Unit := do
  Prog.require (record.state = .delayed) .invalidJobTransition
  let entry ← found.heapEntry
  let index ← Prog.gets fun jsm => (jsm.entryAt entry).index
  Prog.require (index = 0) .invalidJobTransition

/-! ### The changes that the transitions make to a job -/

namespace Job

def released (pri : UInt32) (updatePri : Bool) (job : Job) : Job :=
  ((if updatePri then job.incReleaseCount.updatePriority pri
    else job.incTimeoutCount).updateState .ready).updateReservedBy []

def releasedWithDelay (nowSeconds : Int64) (pri : UInt32) (delay : Int64) (job : Job) : Job :=
  (((((job.updatePriority pri).updateState .delayed).updateDelay delay).updateReadyAt
    nowSeconds).updateReservedBy []).incReleaseCount

def reservedFor (nowSeconds : Int64) (clientID : ClientID) (job : Job) : Job :=
  (((job.updateReservation nowSeconds).updateState .reserved).updateReservedBy
    clientID).incReserveCount

def buriedWith (nowSeconds : Int64) (priority : UInt32) (job : Job) : Job :=
  ((((job.updateReservedBy []).updateBuriedAt nowSeconds).updateState .buried).updatePriority
    priority).incBuryCount

def kicked (job : Job) : Job :=
  (job.resetBuriedAt.updateState .ready).incKickCount

end Job

/-- `fromDelayedToReady` -/
def fromDelayedToReady (jobID : JobID) : JSMProg Unit :=
  moveJob jobID delayedGuard removeDelayedJob (Job.updateState .ready) enqueueReadyJob

/-- `fromReservedToReady` -/
def fromReservedToReady (jobID : JobID) (clientID : ClientID) (pri : UInt32)
    (updatePri : Bool) : JSMProg Unit :=
  moveJob jobID (reservedGuard .invalidJobTransition clientID) removeReservedJob
    (Job.released pri updatePri) enqueueReadyJob

/-- `fromReservedToDelayed` -/
def fromReservedToDelayed (nowSeconds : Int64) (jobID : JobID) (clientID : ClientID)
    (pri : UInt32) (delay : Int64) : JSMProg Unit := do
  moveJob jobID (reservedGuard .invalidJobTransition clientID) removeReservedJob
    (Job.releasedWithDelay nowSeconds pri delay) enqueueDelayedJob
  let record ← getJob jobID
  Prog.modify (JSM.lowerNextDelayTickAt record.readyAt)

/-- `fromReadyToReserved` -/
def fromReadyToReserved (nowSeconds : Int64) (jobID : JobID) (clientID : ClientID) :
    JSMProg Unit :=
  moveJob jobID (stateGuard .ready) removeReadyJob (Job.reservedFor nowSeconds clientID)
    (enqueueReservedJob clientID)

/-- `fromReservedToBuried` -/
def fromReservedToBuried (nowSeconds : Int64) (jobID : JobID) (priority : UInt32)
    (clientID : ClientID) : JSMProg Unit :=
  moveJob jobID (reservedGuard .invalidJobTransition clientID) removeReservedJob
    (Job.buriedWith nowSeconds priority) enqueueBuriedJob

/-- `fromBuriedToReady` -/
def fromBuriedToReady (jobID : JobID) : JSMProg Unit :=
  moveJob jobID (stateGuard .buried) removeBuriedJob Job.kicked enqueueReadyJob

/-- `Ready` -/
def ready (jobID : JobID) : JSMProg Unit :=
  fromDelayedToReady jobID

/-- `Reserve` -/
def reserve (nowSeconds : Int64) (jobID : JobID) (clientID : ClientID) : JSMProg Unit :=
  fromReadyToReserved nowSeconds jobID clientID

/-- `Release` -/
def release (jobID : JobID) (clientID : ClientID) : JSMProg Unit :=
  fromReservedToReady jobID clientID 0 false

/-- `ReleaseWith` -/
def releaseWith (nowSeconds : Int64) (jobID : JobID) (clientID : ClientID) (pri : UInt32)
    (delay : Int64) : JSMProg Unit :=
  if delay = 0 then
    fromReservedToReady jobID clientID pri true
  else
    fromReservedToDelayed nowSeconds jobID clientID pri delay

/-- `Bury` -/
def bury (nowSeconds : Int64) (jobID : JobID) (priority : UInt32) (clientID : ClientID) :
    JSMProg Unit :=
  fromReservedToBuried nowSeconds jobID priority clientID

/-- `Kick` -/
def kick (jobID : JobID) : JSMProg Unit :=
  fromBuriedToReady jobID

/-- The loop of `KickN`, with the rounds that are left and the jobs kicked so
far. -/
def kickLoop (tubeName : TubeName) : Nat → Int64 → JSMProg Int64
  | 0, count => pure count
  | rounds + 1, count => do
      match ← Prog.attempt (peekBuriedJob tubeName) with
      | .error .entryMissing => pure count
      | .error _ => pure 0
      | .ok entry => do
          let record ← Prog.gets (·.jobOf entry)
          kick record.id
          kickLoop tubeName rounds (count + 1)

/-- `KickN` -/
def kickN (tubeName : TubeName) (n : Int64) : JSMProg Int64 :=
  kickLoop tubeName n.toInt.toNat 0

end Coolbeans
