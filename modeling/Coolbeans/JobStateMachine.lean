import Coolbeans.ClientReservationQueue
import Coolbeans.PositionHeap
import Coolbeans.StatefulProgram

/-!
# The state of the job state machine and its containers

`localJSM` keeps one record for each job and client, and reaches it through
several containers: the job index, the three job heaps and the wait queue of a
tube, the reserved heap of a client, the client heap and the client queue.
Jobs, heap entries and client entries are therefore addresses into memories
that are part of the state, and a container holds addresses.

The counters of `procStats` are only reported, never read, and are left out.
-/

namespace Coolbeans

open FiniteMap PositionHeap StatefulProgram

/-- An entry of the job index: the job, and its entry in the job heap that
holds it, if any. -/
structure IndexEntry where
  job : Nat
  entry : Option Nat
  deriving DecidableEq, Repr

/-- The containers of a tube. -/
structure TubeState where
  delayedJobs : List Nat
  readyJobs : List Nat
  waiting : ClientResvQueue
  buriedJobs : List Nat

def TubeState.new : TubeState where
  delayedJobs := []
  readyJobs := []
  waiting := .empty
  buriedJobs := []

/-- The state of `localJSM`, with the memories that its pointers lead to. -/
structure JSM where
  maxJobID : JobID
  jobs : FMap JobID IndexEntry
  tubes : FMap TubeName TubeState
  clientHeap : List CliPtr
  clients : ClientResvQueue
  reservedJobs : FMap ClientID (List Nat)
  nextDelayTickAt : Int64
  jobAt : Nat → Job
  nextJob : Nat
  entryAt : Nat → JobEntry
  nextEntry : Nat
  clientAt : CliPtr → ClientResvEntry
  nextClient : Nat

def maxTime : Int64 := Int64.maxValue

/-- `NewJSM` -/
def newJSM : JSM where
  maxJobID := 0
  jobs := ∅
  tubes := ∅
  clientHeap := []
  clients := .empty
  reservedJobs := ∅
  nextDelayTickAt := maxTime
  jobAt _ := default
  nextJob := 0
  entryAt _ := default
  nextEntry := 0
  clientAt _ := default
  nextClient := 0

/-- A program of the state machine. -/
abbrev JSMProg (α : Type) := Prog JSM Err Panic α

/-! ## Memory -/

/-- The memory of heap entries, as the positions of a heap. -/
def entryStore : PositionStore Nat (Nat → JobEntry) where
  get memory entry := (memory entry).index
  set memory entry position :=
    fun read => if read = entry then { memory entry with index := position } else memory read
  get_set memory written position read := by
    dsimp only
    split <;> rfl

/-- The memory of client entries, as the positions of a heap. -/
def clientStore : PositionStore CliPtr (CliPtr → ClientResvEntry) where
  get memory cli := (memory cli).heapIndex
  set memory cli position :=
    fun read => if read = cli then { memory cli with heapIndex := position } else memory read
  get_set memory written position read := by
    dsimp only
    split <;> rfl

namespace JSM

/-- The job of a heap entry. -/
def jobOf (jsm : JSM) (entry : Nat) : Job :=
  jsm.jobAt (jsm.entryAt entry).job

def updateJob (job : Nat) (change : Job → Job) (jsm : JSM) : JSM :=
  { jsm with jobAt := fun read => if read = job then change (jsm.jobAt job) else jsm.jobAt read }

def updateClient (cli : CliPtr) (change : ClientResvEntry → ClientResvEntry) (jsm : JSM) :
    JSM :=
  { jsm with
    clientAt := fun read => if read = cli then change (jsm.clientAt cli) else jsm.clientAt read }

end JSM

/-! ## Job heaps -/

/-- The job heaps: three for each tube, and one for each client. -/
inductive HeapKey where
  | ready (tubeName : TubeName)
  | delayed (tubeName : TubeName)
  | buried (tubeName : TubeName)
  | reserved (clientID : ClientID)
  deriving DecidableEq, Repr

/-- The comparison that a heap is made with. -/
def HeapKey.less : HeapKey → Job → Job → Bool
  | .ready _ => priorityJobsLess
  | .delayed _ => delayedJobsLess
  | .buried _ => buriedJobsLess
  | .reserved _ => reservedJobsLess

namespace JSM

/-- The entries of a heap; none if its tube or client has no record. -/
def heapAt (jsm : JSM) : HeapKey → List Nat
  | .ready tubeName => ((jsm.tubes.lookup tubeName).map (·.readyJobs)).getD []
  | .delayed tubeName => ((jsm.tubes.lookup tubeName).map (·.delayedJobs)).getD []
  | .buried tubeName => ((jsm.tubes.lookup tubeName).map (·.buriedJobs)).getD []
  | .reserved clientID => (jsm.reservedJobs.lookup clientID).getD []

def modifyTube (tubeName : TubeName) (change : TubeState → TubeState) (jsm : JSM) : JSM :=
  match jsm.tubes.lookup tubeName with
  | some tube => { jsm with tubes := jsm.tubes.insert tubeName (change tube) }
  | none => jsm

def setHeap (key : HeapKey) (items : List Nat) (jsm : JSM) : JSM :=
  match key with
  | .ready tubeName => jsm.modifyTube tubeName fun tube => { tube with readyJobs := items }
  | .delayed tubeName => jsm.modifyTube tubeName fun tube => { tube with delayedJobs := items }
  | .buried tubeName => jsm.modifyTube tubeName fun tube => { tube with buriedJobs := items }
  | .reserved clientID => { jsm with reservedJobs := jsm.reservedJobs.insert clientID items }

/-- A heap with the memory of its positions. -/
def heapState (jsm : JSM) (key : HeapKey) : HeapState Nat (Nat → JobEntry) :=
  ⟨jsm.heapAt key, jsm.entryAt⟩

def putHeap (key : HeapKey) (heap : HeapState Nat (Nat → JobEntry)) (jsm : JSM) : JSM :=
  { jsm.setHeap key heap.items with entryAt := heap.mem }

def lessIn (jsm : JSM) (key : HeapKey) (first second : Nat) : Bool :=
  key.less (jsm.jobOf first) (jsm.jobOf second)

/-- Allocate a heap entry for a job. -/
def newEntry (job : Nat) (jsm : JSM) : JSM :=
  { jsm with
    entryAt := fun read => if read = jsm.nextEntry then ⟨job, 0⟩ else jsm.entryAt read
    nextEntry := jsm.nextEntry + 1 }

def pushEntry (key : HeapKey) (entry : Nat) (jsm : JSM) : JSM :=
  jsm.putHeap key (push entryStore (jsm.lessIn key) entry (jsm.heapState key))

end JSM

/-- `jobHeap.Enqueue` -/
def enqueueAt (key : HeapKey) (job : Nat) : JSMProg Nat := do
  let entry ← Prog.gets (·.nextEntry)
  Prog.modify (JSM.newEntry job)
  Prog.modify (JSM.pushEntry key entry)
  pure entry

/-- `jobHeap.Dequeue` -/
def dequeueAt (key : HeapKey) : JSMProg Nat := fun jsm =>
  match jsm.heapAt key with
  | [] => .panic .indexOutOfRange
  | first :: _ =>
      .ok first (jsm.putHeap key (pop entryStore (jsm.lessIn key) (jsm.heapState key)))

/-- `jobHeap.RemoveAt` -/
def removeAt (key : HeapKey) (entry : Nat) : JSMProg Nat := fun jsm =>
  let index := (jsm.entryAt entry).index
  if (jsm.heapAt key).length ≤ index then
    .err .invalidIndex jsm
  else if index < 0 then
    .panic .indexOutOfRange
  else
    match (jsm.heapAt key)[index.toNat]? with
    | none => .panic .indexOutOfRange
    | some found =>
        if (jsm.jobOf entry).id ≠ (jsm.jobOf found).id then
          .err .mismatchJobEntry jsm
        else
          .ok found
            (jsm.putHeap key (remove entryStore (jsm.lessIn key) index.toNat (jsm.heapState key)))

/-- The first entry of a heap, or a missing entry if the heap is empty. -/
def peekAt (key : HeapKey) : JSMProg Nat := fun jsm =>
  match (jsm.heapAt key).head? with
  | none => .err .entryMissing jsm
  | some first => .ok first jsm

/-! ## Tubes -/

namespace JSM

/-- The wait queue of a tube; empty if the tube has no record. -/
def waitingAt (jsm : JSM) (tubeName : TubeName) : ClientResvQueue :=
  ((jsm.tubes.lookup tubeName).map (·.waiting)).getD .empty

def hasTube (jsm : JSM) (tubeName : TubeName) : Bool :=
  (jsm.tubes.lookup tubeName).isSome

def setWaiting (tubeName : TubeName) (queue : ClientResvQueue) (jsm : JSM) : JSM :=
  jsm.modifyTube tubeName fun tube => { tube with waiting := queue }

/-- `tubeIndex.getByName`, when it creates a missing tube. -/
def createTube (tubeName : TubeName) (jsm : JSM) : JSM :=
  match jsm.tubes.lookup tubeName with
  | some _ => jsm
  | none => { jsm with tubes := jsm.tubes.insert tubeName TubeState.new }

/-- `tubeIndex.cleanup` -/
def cleanup (tubeName : TubeName) (jsm : JSM) : JSM :=
  match jsm.tubes.lookup tubeName with
  | none => jsm
  | some tube =>
      if tube.readyJobs = [] ∧ tube.delayedJobs = [] ∧ tube.waiting.len = 0 ∧
          tube.buriedJobs = [] then
        { jsm with tubes := jsm.tubes.erase tubeName }
      else
        jsm

end JSM

/-- `tubeIndex.getByName` -/
def getByName (tubeName : TubeName) (create : Bool) : JSMProg Unit :=
  if create then
    Prog.modify (JSM.createTube tubeName)
  else do
    let present ← Prog.gets (·.hasTube tubeName)
    Prog.require (present = true) .entryMissing

/-- Enqueue a job into one of the heaps of its tube. -/
def enqueueTubeJob (key : TubeName → HeapKey) (job : Nat) : JSMProg Nat := do
  let tubeName ← Prog.gets fun jsm => (jsm.jobAt job).tubeName
  getByName tubeName true
  enqueueAt (key tubeName) job

def enqueueReadyJob : Nat → JSMProg Nat := enqueueTubeJob .ready

def enqueueDelayedJob : Nat → JSMProg Nat := enqueueTubeJob .delayed

def enqueueBuriedJob : Nat → JSMProg Nat := enqueueTubeJob .buried

/-- Remove an entry from one of the heaps of its job's tube. -/
def removeTubeJob (key : TubeName → HeapKey) (entry : Nat) : JSMProg Nat := do
  let tubeName ← Prog.gets fun jsm => (jsm.jobOf entry).tubeName
  getByName tubeName false
  removeAt (key tubeName) entry

def removeReadyJob : Nat → JSMProg Nat := removeTubeJob .ready

def removeBuriedJob : Nat → JSMProg Nat := removeTubeJob .buried

/-- Unlike its siblings, the removal of a delayed job also drops the tube if
nothing is left in it, whether or not the removal succeeded. -/
def removeDelayedJob (entry : Nat) : JSMProg Nat := do
  let tubeName ← Prog.gets fun jsm => (jsm.jobOf entry).tubeName
  getByName tubeName false
  let removed ← Prog.attempt (removeAt (.delayed tubeName) entry)
  Prog.modify (JSM.cleanup tubeName)
  match removed with
  | .ok found => pure found
  | .error error => Prog.fail error

def nextDelayedJob (tubeName : TubeName) : JSMProg Nat := peekAt (.delayed tubeName)

def nextReadyJob (tubeName : TubeName) : JSMProg Nat := peekAt (.ready tubeName)

def nextBuriedJob (tubeName : TubeName) : JSMProg Nat := peekAt (.buried tubeName)

def enqueueToWaitQ (tubeName : TubeName) (cli : CliPtr) : JSMProg Unit := do
  getByName tubeName true
  let queue ← Prog.gets (·.waitingAt tubeName)
  match queue.enqueue cli with
  | .ok after => Prog.modify (JSM.setWaiting tubeName after)
  | .error error => Prog.fail error

def waitQLen (tubeName : TubeName) : JSMProg Nat := do
  getByName tubeName false
  Prog.gets fun jsm => (jsm.waitingAt tubeName).len

def dequeueFromWaitQ (tubeName : TubeName) : JSMProg CliPtr := do
  getByName tubeName false
  let queue ← Prog.gets (·.waitingAt tubeName)
  match queue.dequeue with
  | .ok cli => pure cli
  | .error error => Prog.fail error

/-! ## Reserved jobs -/

/-- `reservedJobsIndex.Enqueue` -/
def enqueueReservedJob (clientID : ClientID) (job : Nat) : JSMProg Nat :=
  enqueueAt (.reserved clientID) job

/-- The deferred deletion of an empty reserved heap. -/
def JSM.dropReserved (clientID : ClientID) (jsm : JSM) : JSM :=
  if jsm.heapAt (.reserved clientID) = [] then
    { jsm with reservedJobs := jsm.reservedJobs.erase clientID }
  else
    jsm

/-- `reservedJobsIndex.Remove`.  An entry that stands first in its heap is
taken off the front, without a look at which entry that is. -/
def removeReservedJob (entry : Nat) : JSMProg Nat := do
  let clientID ← Prog.gets fun jsm => (jsm.jobOf entry).reservedBy
  let present ← Prog.gets fun jsm => (jsm.reservedJobs.lookup clientID).isSome
  Prog.require (present = true) .entryMissing
  let index ← Prog.gets fun jsm => (jsm.entryAt entry).index
  let removed ← Prog.attempt
    (if index = 0 then dequeueAt (.reserved clientID) else removeAt (.reserved clientID) entry)
  Prog.modify (JSM.dropReserved clientID)
  match removed with
  | .ok found => pure found
  | .error error => Prog.fail error

def nextReservedJob (clientID : ClientID) : JSMProg Nat := peekAt (.reserved clientID)

/-! ## The job index -/

namespace JobIndex

/-- `JobIndex.Get` -/
def get (jobID : JobID) : JSMProg IndexEntry := fun jsm =>
  match jsm.jobs.lookup jobID with
  | none => .err .entryMissing jsm
  | some found => .ok found jsm

/-- `JobIndex.Add` -/
def add (job : Nat) : JSMProg Unit := fun jsm =>
  let jobID := (jsm.jobAt job).id
  match jsm.jobs.lookup jobID with
  | some _ => .err .entryExists jsm
  | none => .ok () { jsm with jobs := jsm.jobs.insert jobID ⟨job, none⟩ }

/-- `JobIndex.Remove` -/
def remove (jobID : JobID) : JSMProg IndexEntry := fun jsm =>
  match jsm.jobs.lookup jobID with
  | none => .err .entryMissing jsm
  | some found => .ok found { jsm with jobs := jsm.jobs.erase jobID }

/-- Point an index entry at the heap entry of its job. -/
def setEntry (jobID : JobID) (job entry : Nat) : JSMProg Unit :=
  Prog.modify fun jsm => { jsm with jobs := jsm.jobs.insert jobID ⟨job, some entry⟩ }

end JobIndex

end Coolbeans
