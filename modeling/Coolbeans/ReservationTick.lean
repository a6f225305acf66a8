import Coolbeans.JobTransitions

/-!
# Reservations and the clock

The operations that match clients with jobs: `AppendReservation`, and the
three stages of `Tick`.  Where the source walks a Go map, the order of the
walk is an argument.  An endless `for` takes a bound on its rounds that is
read off the state; a loop that would outrun it ends in `Panic.loopForever`.
-/

namespace Coolbeans

open StatefulProgram PositionHeap

/-- The orders in which one tick walks the map of tubes.  A walk visits every
tube that is there when it begins.  `tickDelayJobs` may delete and re-create
the record of the tube it visits, and Go may then visit that tube again;
`tickReadyJobs` deletes and creates no tube, and visits each one once. -/
structure TubeWalk where
  delay : List TubeName → List TubeName
  ready : List TubeName → List TubeName
  mem_delay : ∀ names tubeName, tubeName ∈ delay names ↔ tubeName ∈ names
  perm_ready : ∀ names, (ready names).Perm names

theorem TubeWalk.mem_id (names : List TubeName) (tubeName : TubeName) :
    tubeName ∈ id names ↔ tubeName ∈ names :=
  Iff.rfl

/-- The walk in the order of the keys. -/
def TubeWalk.inOrder : TubeWalk where
  delay := id
  ready := id
  mem_delay := mem_id
  perm_ready _ := List.Perm.refl _

instance : Inhabited TubeWalk := ⟨.inOrder⟩

def readClient (cli : CliPtr) : JSMProg ClientResvEntry :=
  Prog.gets (·.clientAt cli)

theorem readClient_bind {α : Type} (cli : CliPtr) (next : ClientResvEntry → JSMProg α)
    (jsm : JSM) : (readClient cli >>= next) jsm = next (jsm.clientAt cli) jsm :=
  rfl

def updateClient (cli : CliPtr) (change : ClientResvEntry → ClientResvEntry) : JSMProg Unit :=
  Prog.modify (JSM.updateClient cli change)

/-! ## The client heap -/

/-- `clientResvHeap.Less` -/
def clientResvLess (clientAt : CliPtr → ClientResvEntry) (first second : CliPtr) : Bool :=
  if (clientAt first).tickAt = (clientAt second).tickAt then
    decide (first.cliID < second.cliID)
  else
    decide ((clientAt first).tickAt < (clientAt second).tickAt)

namespace JSM

def clientHeapState (jsm : JSM) : HeapState CliPtr (CliPtr → ClientResvEntry) :=
  ⟨jsm.clientHeap, jsm.clientAt⟩

def putClientHeap (heap : HeapState CliPtr (CliPtr → ClientResvEntry)) (jsm : JSM) : JSM :=
  { jsm with clientHeap := heap.items, clientAt := heap.mem }

/-- `clientResvHeap.Enqueue` -/
def clientHeapEnqueue (cli : CliPtr) (jsm : JSM) : JSM :=
  jsm.putClientHeap (push clientStore (clientResvLess jsm.clientAt) cli jsm.clientHeapState)

end JSM

/-- `heap.Fix` at the position of an entry of the client heap. -/
def clientHeapFix (cli : CliPtr) : JSMProg Unit := fun jsm =>
  let index := (jsm.clientAt cli).heapIndex
  if index ≠ 0 ∧ jsm.clientHeap.length ≤ index then
    .panic .indexOutOfRange
  else
    .ok () (jsm.putClientHeap
      (fix clientStore (clientResvLess jsm.clientAt) index.toNat jsm.clientHeapState))

/-- `clientResvHeap.Dequeue` -/
def clientHeapDequeue : JSMProg CliPtr := fun jsm =>
  match jsm.clientHeap with
  | [] => .panic .indexOutOfRange
  | first :: _ =>
      .ok first
        (jsm.putClientHeap (pop clientStore (clientResvLess jsm.clientAt) jsm.clientHeapState))

/-- `clientResvHeap.Remove` -/
def clientHeapRemove (cli : CliPtr) : JSMProg Unit := fun jsm =>
  let index := (jsm.clientAt cli).heapIndex
  if jsm.clientHeap.length ≤ index then
    .err .invalidIndex jsm
  else if index < 0 then
    .panic .indexOutOfRange
  else
    match jsm.clientHeap[index.toNat]? with
    | none => .panic .indexOutOfRange
    | some found =>
        if cli.cliID ≠ found.cliID then
          .err .mismatchJobEntry jsm
        else
          .ok () (jsm.putClientHeap
            (remove clientStore (clientResvLess jsm.clientAt) index.toNat jsm.clientHeapState))

/-! ## Client entries -/

def findClient (clientID : ClientID) : JSMProg CliPtr := fun jsm =>
  match jsm.clients.find clientID with
  | .ok cli => .ok cli jsm
  | .error error => .err error jsm

def enqueueClient (cli : CliPtr) : JSMProg Unit := fun jsm =>
  match jsm.clients.enqueue cli with
  | .ok after => .ok () { jsm with clients := after }
  | .error error => .err error jsm

def removeClient (cli : CliPtr) : JSMProg Unit := fun jsm =>
  match jsm.clients.remove cli with
  | .ok after => .ok () { jsm with clients := after }
  | .error error => .err error jsm

/-- Allocate a client entry. -/
def allocClient (clientID : ClientID) (record : ClientResvEntry) : JSMProg CliPtr := do
  let addr ← Prog.gets (·.nextClient)
  Prog.modify fun jsm =>
    { jsm with
      clientAt := fun read => if read = ⟨clientID, addr⟩ then record else jsm.clientAt read
      nextClient := addr + 1 }
  pure ⟨clientID, addr⟩

def minTime (first second : Int64) : Int64 :=
  if first < second then first else second

/-- The clock at which a client next needs processing, given the expiry of
its first reserved job, if it has one. -/
def nextClientTickAt (record : ClientResvEntry) (firstExpiry : Option Int64) : Int64 :=
  let reservedTickAt :=
    match firstExpiry with
    | none => maxTime
    | some expiresAt =>
        -- a waiting client is told one second early that the deadline is soon
        minTime maxTime (if record.isWaitingForResv then expiresAt - 1 else expiresAt)
  if record.isWaitingForResv then minTime reservedTickAt record.resvDeadlineAt
  else reservedTickAt

/-- Put a client at `nextTickAt` on the client heap. -/
def scheduleClient (cli : CliPtr) (nextTickAt : Int64) : JSMProg Unit := do
  let record ← readClient cli
  if record.heapIndex < 0 then do
    updateClient cli fun record => { record with tickAt := nextTickAt }
    Prog.modify (JSM.clientHeapEnqueue cli)
  else do
    updateClient cli fun record => { record with tickAt := nextTickAt }
    clientHeapFix cli

/-- Take a client that needs no processing off the client heap and out of the
index, if it is on the heap. -/
def unscheduleClient (cli : CliPtr) (nextTickAt : Int64) : JSMProg Unit := do
  let record ← readClient cli
  if 0 ≤ record.heapIndex then do
    match ← Prog.attempt (clientHeapRemove cli) with
    | .error _ => Prog.crash .clientHeapRemove
    | .ok _ => do
        match ← Prog.attempt (removeClient cli) with
        | .error .entryMissing =>
            updateClient cli fun record => { record with tickAt := nextTickAt }
        | .error _ => Prog.crash .clientsRemove
        | .ok _ => updateClient cli fun record => { record with tickAt := nextTickAt }
  else
    updateClient cli fun record => { record with tickAt := nextTickAt }

/-- `updateClientTickAt` -/
def updateClientTickAt (cli : CliPtr) : JSMProg Unit := do
  let record ← readClient cli
  match ← Prog.attempt (nextReservedJob cli.cliID) with
  | .error .entryMissing => do
      let nextTickAt := nextClientTickAt record none
      if nextTickAt < maxTime then scheduleClient cli nextTickAt
      else unscheduleClient cli nextTickAt
  | .error _ => Prog.crash .nextReservedJob
  | .ok entry => do
      let job ← Prog.gets (·.jobOf entry)
      let nextTickAt := nextClientTickAt record (some job.expiresAt)
      if nextTickAt < maxTime then scheduleClient cli nextTickAt
      else unscheduleClient cli nextTickAt

/-- Leave the wait queue of a tube. -/
def leaveWaitQ (cli : CliPtr) (tubeName : TubeName) : JSMProg Unit := fun jsm =>
  match jsm.tubes.lookup tubeName with
  | none => .panic .nilPointer
  | some tube =>
      match tube.waiting.remove cli with
      | .error _ => .panic .unReserve
      | .ok after => .ok () (jsm.setWaiting tubeName after)

/-- Run a program for each item of a list. -/
def forEach {α : Type} (body : α → JSMProg Unit) (items : List α) : JSMProg Unit :=
  items.foldlM (fun _ item => body item) ()

/-- `unReserve` -/
def unReserve (cli : CliPtr) : JSMProg Unit := do
  updateClient cli fun record =>
    { record with isWaitingForResv := false, resvDeadlineAt := maxTime }
  let record ← readClient cli
  forEach (leaveWaitQ cli) record.watchedTubes

/-- `Touch`.  The job enters the reserved heap of the client that is named in
the call, which need not be its owner if that name is empty. -/
def touch (nowSeconds : Int64) (jobID : JobID) (clientID : ClientID) : JSMProg Unit := do
  moveJob jobID (reservedGuard .invalidOperation clientID) removeReservedJob
    (Job.updateReservation nowSeconds) (enqueueReservedJob clientID)
  let cli ← findClient clientID
  updateClientTickAt cli

/-! ## Matching -/

/-- The client that a match is for: the one that asks, or the first in the
wait queue. -/
def matchClient (tubeName : TubeName) : Option CliPtr → JSMProg CliPtr
  | some cli => pure cli
  | none => do
      match ← Prog.attempt (dequeueFromWaitQ tubeName) with
      | .error _ => Prog.crash .dequeueFromWaitQ
      | .ok cli => pure cli

/-- Reserve the job of a ready entry for a client, and answer the client. -/
def reserveFor (nowSecs : Int64) (entry : Nat) (cli : CliPtr) : JSMProg Reservation := do
  let record ← readClient cli
  Prog.insist (record.isWaitingForResv = true) .notWaitingForResv
  let job ← Prog.gets (·.jobOf entry)
  match ← Prog.attempt (reserve nowSecs job.id cli.cliID) with
  | .error _ => Prog.crash .reserve
  | .ok _ => do
      unReserve cli
      updateClientTickAt cli
      pure
        { requestId := record.reqID
          clientId := cli.cliID
          jobId := job.id
          status := .matched
          bodySize := job.bodySize
          body := job.body
          error := none }

/-- `tryReserveJob` -/
def tryReserveJob (nowSecs : Int64) (tubeName : TubeName) (cli : Option CliPtr) :
    JSMProg Reservation := do
  let n ← waitQLen tubeName
  Prog.require (n ≠ 0) .noReservationFound
  match ← Prog.attempt (peekReadyJob tubeName) with
  | .error .entryMissing => Prog.fail .noReservationFound
  | .error _ => Prog.crash .peekReadyJob
  | .ok entry => do
      let cli ← matchClient tubeName cli
      reserveFor nowSecs entry cli

def maxTimeoutSecs : Int64 := 24 * 3600

/-- The entry of a client that asks for a reservation: a new one, or the one
it has, unless that one is still waiting. -/
def registerClient (clientId : ClientID) (reqID : ReqID) (watchedTubes : List TubeName)
    (resvDeadlineAt : Int64) : JSMProg CliPtr := do
  match ← Prog.attempt (findClient clientId) with
  | .error .entryMissing => do
      let cli ← allocClient clientId
        { watchedTubes, resvDeadlineAt, reqID
          isWaitingForResv := true
          tickAt := 0
          heapIndex := -1 }
      enqueueClient cli
      pure cli
  | .error error => Prog.fail error
  | .ok cli => do
      let record ← readClient cli
      Prog.require (record.isWaitingForResv = false) .clientIsWaitingForReservation
      updateClient cli fun record =>
        { record with reqID, watchedTubes, resvDeadlineAt, isWaitingForResv := true }
      pure cli

/-- Enter the wait queue of a tube. -/
def joinWaitQ (cli : CliPtr) (tubeName : TubeName) : JSMProg Unit := do
  match ← Prog.attempt (enqueueToWaitQ tubeName cli) with
  | .error _ => Prog.crash .enqueueToWaitQ
  | .ok _ => pure ()

/-- Look for a job in each of a client's tubes in turn. -/
def firstMatch (nowSecs : Int64) (cli : CliPtr) : List TubeName → JSMProg (Option Reservation)
  | [] => pure none
  | tubeName :: tubeNames => do
      match ← Prog.attempt (tryReserveJob nowSecs tubeName (some cli)) with
      | .error .noReservationFound => firstMatch nowSecs cli tubeNames
      | .error _ => Prog.crash .tryReserveJob
      | .ok resv => pure (some resv)

/-- `AppendReservation` -/
def appendReservation (clientId : ClientID) (reqID : ReqID) (watchedTubes : List TubeName)
    (nowSecs resvDeadlineAt : Int64) : JSMProg Reservation := do
  let maxTimeLimit := nowSecs + maxTimeoutSecs
  Prog.require (¬ (resvDeadlineAt < nowSecs ∨ resvDeadlineAt > maxTimeLimit))
    .invalidResvTimeout
  let cli ← registerClient clientId reqID watchedTubes resvDeadlineAt
  forEach (joinWaitQ cli) watchedTubes
  match ← firstMatch nowSecs cli watchedTubes with
  | some resv => pure resv
  | none => do
      updateClientTickAt cli
      pure
        { requestId := reqID
          clientId := cli.cliID
          jobId := 0
          status := .queued
          bodySize := 0
          body := none
          error := none }

/-! ## The stages of a tick -/

/-- The inner loop of `tickDelayJobs`: make the delayed jobs of a tube ready
while they are due.  The accumulator is the earliest clock at which a job that
stays delayed will be due. -/
def tickDelayTube (now : Int64) (tubeName : TubeName) : Nat → Int64 → JSMProg Int64
  | 0, _ => Prog.crash .loopForever
  | rounds + 1, nextDelayedTickAt => do
      match ← Prog.attempt (peekDelayedJob tubeName) with
      | .error .entryMissing => pure nextDelayedTickAt
      | .error _ => Prog.crash .peekDelayedJob
      | .ok entry => do
          let job ← Prog.gets (·.jobOf entry)
          if job.readyAt ≥ now then
            pure (if job.readyAt < nextDelayedTickAt then job.readyAt else nextDelayedTickAt)
          else do
            match ← Prog.attempt (ready job.id) with
            | .error _ => Prog.crash .ready
            | .ok _ => tickDelayTube now tubeName rounds nextDelayedTickAt

/-- One visit of the walk of `tickDelayJobs`. -/
def visitDelayTube (now : Int64) (nextDelayedTickAt : Int64) (tubeName : TubeName) :
    JSMProg Int64 := do
  let rounds ← Prog.gets fun jsm => (jsm.heapAt (.delayed tubeName)).length + 1
  tickDelayTube now tubeName rounds nextDelayedTickAt

/-- `tickDelayJobs` -/
def tickDelayJobs (now : Int64) (walk : TubeWalk) : JSMProg Unit := do
  let names ← Prog.gets (·.tubes.keys)
  let nextDelayedTickAt ← (walk.delay names).foldlM (visitDelayTube now) maxTime
  Prog.modify fun jsm => { jsm with nextDelayTickAt := nextDelayedTickAt }

/-- The inner loop of `tickReadyJobs`: match the ready jobs of a tube with its
waiting clients while there are both. -/
def tickReadyTube (nowSecs : Int64) (tubeName : TubeName) :
    Nat → List Reservation → JSMProg (List Reservation)
  | 0, _ => Prog.crash .loopForever
  | rounds + 1, result => do
      match ← Prog.attempt (tryReserveJob nowSecs tubeName none) with
      | .error .noReservationFound => pure result
      | .error _ => Prog.crash .tryReserveJob
      | .ok resv => tickReadyTube nowSecs tubeName rounds (result ++ [resv])

/-- One visit of the walk of `tickReadyJobs`. -/
def visitReadyTube (nowSecs : Int64) (result : List Reservation) (tubeName : TubeName) :
    JSMProg (List Reservation) := do
  let rounds ← Prog.gets fun jsm => (jsm.heapAt (.ready tubeName)).length + 1
  tickReadyTube nowSecs tubeName rounds result

/-- `tickReadyJobs` -/
def tickReadyJobs (nowSecs : Int64) (walk : TubeWalk) : JSMProg (List Reservation) := do
  let names ← Prog.gets (·.tubes.keys)
  (walk.ready names).foldlM (visitReadyTube nowSecs) []

/-- An answer without a job. -/
def emptyReservation (cli : CliPtr) (reqID : ReqID) (status : ReservationStatus) :
    Reservation where
  requestId := reqID
  clientId := cli.cliID
  jobId := 0
  status := status
  bodySize := 0
  body := none
  error := none

/-- The inner loop of `tickClients`: release the client's expired jobs, and
tell a waiting client when its first deadline is soon. -/
def tickClientJobs (nowSecs : Int64) (cli : CliPtr) :
    Nat → List Reservation → JSMProg (List Reservation)
  | 0, _ => Prog.crash .loopForever
  | rounds + 1, result => do
      match ← Prog.attempt (nextReservedJob cli.cliID) with
      | .error .entryMissing => pure result
      | .error _ => Prog.crash .nextReservedJob
      | .ok entry => do
          let job ← Prog.gets (·.jobOf entry)
          let record ← readClient cli
          if nowSecs > job.expiresAt then do
            match ← Prog.attempt (release job.id cli.cliID) with
            | .error _ => Prog.crash .release
            | .ok _ => tickClientJobs nowSecs cli rounds result
          else if nowSecs > job.expiresAt - 1 ∧ record.isWaitingForResv = true then do
            unReserve cli
            tickClientJobs nowSecs cli rounds
              (result ++ [emptyReservation cli record.reqID .deadlineSoon])
          else
            pure result

/-- Answer a client whose request has passed its deadline. -/
def tickClientDeadline (nowSecs : Int64) (cli : CliPtr) (result : List Reservation) :
    JSMProg (List Reservation) := do
  let record ← readClient cli
  if record.isWaitingForResv = true ∧ nowSecs > record.resvDeadlineAt then do
    unReserve cli
    pure (result ++ [emptyReservation cli record.reqID .timeout])
  else
    pure result

/-- Process the client that was taken off the front of the client heap. -/
def tickClient (nowSecs : Int64) (cli : CliPtr) (result : List Reservation) :
    JSMProg (List Reservation) := do
  let result ← tickClientDeadline nowSecs cli result
  let rounds ← Prog.gets fun jsm => (jsm.heapAt (.reserved cli.cliID)).length + 2
  let result ← tickClientJobs nowSecs cli rounds result
  updateClientTickAt cli
  pure result

/-- The outer loop of `tickClients`. -/
def tickClientsLoop (nowSecs : Int64) : Nat → List Reservation → JSMProg (List Reservation)
  | 0, _ => Prog.crash .loopForever
  | rounds + 1, result => do
      match ← Prog.gets (·.clientHeap.head?) with
      | none => pure result
      | some first => do
          let record ← readClient first
          if nowSecs ≤ record.tickAt then
            pure result
          else do
            let cli ← clientHeapDequeue
            let result ← tickClient nowSecs cli result
            tickClientsLoop nowSecs rounds result

/-- `tickClients` -/
def tickClients (nowSecs : Int64) : JSMProg (List Reservation) := do
  let rounds ← Prog.gets (·.clientHeap.length + 1)
  tickClientsLoop nowSecs rounds []

/-- The delay stage of a tick runs only when a delayed job can be due. -/
def tickDelayStage (nowSecs : Int64) (walk : TubeWalk) : JSMProg Unit := do
  let nextDelayTickAt ← Prog.gets (·.nextDelayTickAt)
  if nowSecs > nextDelayTickAt then do
    Prog.modify fun jsm => { jsm with nextDelayTickAt := maxTime }
    tickDelayJobs nowSecs walk
  else
    pure ()

/-- `Tick` -/
def tick (nowSecs : Int64) (walk : TubeWalk) : JSMProg (List Reservation) := do
  tickDelayStage nowSecs walk
  let matched ← tickReadyJobs nowSecs walk
  let answered ← tickClients nowSecs
  pure (matched ++ answered)

end Coolbeans
