import Coolbeans.ReservationTick

/-!
# Snapshots

A snapshot of the state machine is a protobuf record of its jobs and of its
client entries; a restore builds the containers of a state machine again from
such a record.  Protobuf marshalling is the identity here.  The jobs of a
snapshot come in the order in which Go walks the job index, so that order is
an argument; the client entries come in the order of the client queue.
-/

namespace Coolbeans

open StatefulProgram PositionHeap FiniteMap

/-- `v1.JobProto`.  Its state enumeration has the values of `JobState`. -/
structure JobProto where
  id : Int64
  priority : UInt32
  delay : Int64
  ttr : Int32
  tubeName : Bytes
  createdAt : Int64
  readyAt : Int64
  expiresAt : Int64
  state : JobState
  reservedBy : Bytes
  bodySize : Int32
  body : Option Bytes
  buriedAt : Int64
  reserveCount : UInt32
  timeoutCount : UInt32
  releaseCount : UInt32
  buryCount : UInt32
  kickCount : UInt32
  deriving DecidableEq, Repr

/-- `v1.ClientResvEntryProto` -/
structure ClientResvEntryProto where
  clientId : Bytes
  resvDeadlineAt : Int64
  isWaitingForResv : Bool
  tickAt : Int64
  reqId : Bytes
  heapIndex : Int32
  watchedTube : List Bytes
  deriving DecidableEq, Repr

/-- `v1.SnapshotProto` -/
structure SnapshotProto where
  jobs : List JobProto
  reservations : List ClientResvEntryProto
  deriving DecidableEq, Repr

/-! ## Taking a snapshot -/

/-- `JobToJobProto` -/
def jobToJobProto (job : Job) : JobProto where
  id := job.id.toInt64
  priority := job.priority
  delay := job.delay
  ttr := job.ttr.toInt32
  tubeName := job.tubeName
  createdAt := job.createdAt
  readyAt := job.readyAt
  expiresAt := job.expiresAt
  state := job.state
  reservedBy := job.reservedBy
  bodySize := job.bodySize.toInt32
  body := job.body
  buriedAt := job.buriedAt
  reserveCount := job.reserveCount
  timeoutCount := job.timeoutCount
  releaseCount := job.releaseCount
  buryCount := job.buryCount
  kickCount := job.kickCount

/-- `appendClientRsvEntry` -/
def clientRsvEntryProto (cli : CliPtr) (record : ClientResvEntry) : ClientResvEntryProto where
  clientId := cli.cliID
  resvDeadlineAt := record.resvDeadlineAt
  isWaitingForResv := record.isWaitingForResv
  tickAt := record.tickAt
  reqId := record.reqID
  heapIndex := Int32.ofInt record.heapIndex
  watchedTube := record.watchedTubes

/-- The order in which a snapshot walks the job index. -/
structure JobWalk where
  visit : List JobID → List JobID
  perm : ∀ ids, (visit ids).Perm ids

def JobWalk.inOrder : JobWalk where
  visit := id
  perm _ := List.Perm.refl _

namespace JSM

/-- `SnapshotJobs` -/
def snapshotJobs (walk : JobWalk) (jsm : JSM) : List Job :=
  (walk.visit jsm.jobs.keys).filterMap fun id =>
    (jsm.jobs.lookup id).map fun found => jsm.jobAt found.job

/-- `SnapshotClients`: entries that are not on the client heap are skipped. -/
def snapshotClients (jsm : JSM) : List CliPtr :=
  jsm.clients.entries.filter fun cli => ¬ (jsm.clientAt cli).heapIndex < 0

/-- `NewSnapshotFrom` -/
def newSnapshotFrom (walk : JobWalk) (jsm : JSM) : SnapshotProto where
  jobs := (jsm.snapshotJobs walk).map jobToJobProto
  reservations := jsm.snapshotClients.map fun cli => clientRsvEntryProto cli (jsm.clientAt cli)

end JSM

/-! ## Restoring a snapshot -/

/-- `NewJobFromJobProto` -/
def newJobFromJobProto (jp : JobProto) : Job where
  impl := .wrapJob
  id := jp.id.toUInt64
  priority := jp.priority
  delay := jp.delay
  ttr := jp.ttr.toInt64
  bodySize := jp.bodySize.toInt64
  body := jp.body
  tubeName := jp.tubeName
  createdAt := jp.createdAt
  readyAt := jp.readyAt
  state := jp.state
  expiresAt := jp.expiresAt
  reservedBy := jp.reservedBy
  buriedAt := jp.buriedAt
  reserveCount := jp.reserveCount
  timeoutCount := jp.timeoutCount
  releaseCount := jp.releaseCount
  buryCount := jp.buryCount
  kickCount := jp.kickCount

/-- The client entry that `restoreCliRevEntries` sends for a record.  It
leaves the watched tubes of the record out. -/
def clientFromProto (proto : ClientResvEntryProto) : ClientResvEntry where
  watchedTubes := []
  resvDeadlineAt := proto.resvDeadlineAt
  isWaitingForResv := proto.isWaitingForResv
  tickAt := proto.tickAt
  reqID := proto.reqId
  heapIndex := proto.heapIndex.toInt

/-- Fill a slot of the client heap. -/
def fillSlot (slots : List (Option CliPtr)) (index : Int) (cli : CliPtr) :
    JSMProg (List (Option CliPtr)) := fun jsm =>
  if 0 ≤ index ∧ index < slots.length then
    .ok (slots.set index.toNat (some cli)) jsm
  else
    .panic .indexOutOfRange

/-- `restoreClient` -/
def restoreClient (slots : List (Option CliPtr)) (cli : CliPtr) :
    JSMProg (List (Option CliPtr)) := do
  let record ← readClient cli
  Prog.require (¬ record.heapIndex < 0) .invalidIndex
  enqueueClient cli
  if record.isWaitingForResv then
    forEach (fun tubeName => enqueueToWaitQ tubeName cli) record.watchedTubes
  else
    pure ()
  fillSlot slots record.heapIndex cli

/-- One round of the loop of `RestoreClients`. -/
def restoreClientRound (slots : List (Option CliPtr)) (cli : CliPtr) :
    JSMProg (List (Option CliPtr)) := do
  match ← Prog.attempt (restoreClient slots cli) with
  | .ok slots => pure slots
  | .error _ => Prog.crash .restoreClient

/-- `RestoreClients`, with the number of entries that its callers announce: the
number that they send.  Initializing a heap with an empty slot dereferences
nil. -/
def restoreClients (entries : List CliPtr) : JSMProg Unit := do
  let slots ← entries.foldlM restoreClientRound (List.replicate entries.length none)
  match slots.allSome with
  | none => Prog.crash .nilPointer
  | some clis =>
      Prog.modify fun jsm =>
        jsm.putClientHeap (init clientStore (clientResvLess jsm.clientAt) ⟨clis, jsm.clientAt⟩)

/-- The entries that `restoreCliRevEntries` makes for the records. -/
def allocClients : List ClientResvEntryProto → JSMProg (List CliPtr)
  | [] => pure []
  | proto :: protos => do
      let cli ← allocClient proto.clientId (clientFromProto proto)
      let clis ← allocClients protos
      pure (cli :: clis)

/-- `restoreCliRevEntries` -/
def restoreCliRevEntries (protos : List ClientResvEntryProto) : JSMProg Unit := do
  let entries ← allocClients protos
  restoreClients entries

/-- Put a restored job into the container of its state. -/
def enqueueRestored (record : Job) (job : Nat) : JSMProg Unit :=
  match record.state with
  | .reserved => do
      let entry ← enqueueReservedJob record.reservedBy job
      JobIndex.setEntry record.id job entry
  | .ready => do
      let entry ← enqueueReadyJob job
      JobIndex.setEntry record.id job entry
  | .delayed => do
      let entry ← enqueueDelayedJob job
      JobIndex.setEntry record.id job entry
  | .buried => do
      let entry ← enqueueBuriedJob job
      JobIndex.setEntry record.id job entry
  | _ => pure ()

/-- `restoreJob` -/
def restoreJob (record : Job) : JSMProg Unit := do
  let job ← allocJob record
  JobIndex.add job
  Prog.modify fun jsm =>
    if record.id > jsm.maxJobID then { jsm with maxJobID := record.id } else jsm
  enqueueRestored record job

/-- `RestoreJobs` -/
def restoreJobs (protos : List JobProto) : JSMProg Unit :=
  forEach (fun proto => restoreJob (newJobFromJobProto proto)) protos

/-- The containers of a new `localSnapshot`, over the memory of the state
machine that it will replace. -/
def newLocalSnapshot (jsm : JSM) : JSM :=
  { newJSM with
    jobAt := jsm.jobAt
    nextJob := jsm.nextJob
    entryAt := jsm.entryAt
    nextEntry := jsm.nextEntry
    clientAt := jsm.clientAt
    nextClient := jsm.nextClient }

/-- `FinalizeRestore`: every container is replaced, the clock of the next
delay tick is not. -/
def finalizeRestore (restored jsm : JSM) : JSM :=
  { restored with nextDelayTickAt := jsm.nextDelayTickAt }

/-- `restoreTo`, without its last step `FinalizeRestore`. -/
def restoreTo (snap : SnapshotProto) : JSMProg Unit := do
  restoreCliRevEntries snap.reservations
  restoreJobs snap.jobs

/-- `RestoreSnapshotTo`, of a snapshot that is read before the timeout. -/
def restoreSnapshotTo (snap : SnapshotProto) : JSMProg Unit := fun jsm =>
  match restoreTo snap (newLocalSnapshot jsm) with
  | .ok _ restored => .ok () (finalizeRestore restored jsm)
  | .err error _ => .err error jsm
  | .panic cause => .panic cause

end Coolbeans
