import Coolbeans.SortedListing
import Coolbeans.TickDelay
import Coolbeans.WaitingLine
import Mathlib.Data.List.Find

/-!
# The board

What the state machine is for, without its containers.  A board shows the jobs, the requests
that are not answered yet, and who stands in line at which tube.  It has no heaps, no index and
no entries for clients that do not wait, and it keeps no clocks: a tick looks at every job and
at every request.  A rule for each operation says how it is answered, with its error if it
fails, and what it changes.
-/

namespace Coolbeans

open SortedListing

/-- A request that waits for an answer. -/
structure OpenRequest where
  reqID : ReqID
  deadline : Int64
  deriving DecidableEq, Repr

/-- The jobs, the last id that was given to a job, the open requests, and for each tube the
clients in line. -/
@[ext]
structure Board where
  jobs : JobID → Option Job
  lastID : JobID
  requests : ClientID → Option OpenRequest
  lines : TubeName → List ClientID

/-! ## What a command decides for the job that it names -/

namespace Job

/-- A reserved job is changed for its owner, or for a caller that names no client. -/
def changedBy (error : Err) (clientID : ClientID) (change : Job → Job) (job : Job) :
    Except Err (Option Job) :=
  if job.state ≠ .reserved then .error error
  else if clientID ≠ [] ∧ job.reservedBy ≠ clientID then .error .unauthorizedOperation
  else .ok (some (change job))

/-- A job can be deleted by everybody, unless somebody else has reserved it. -/
def deletedBy (clientID : ClientID) (job : Job) : Except Err (Option Job) :=
  if job.state = .reserved ∧ job.reservedBy ≠ clientID then .error .unauthorizedOperation
  else .ok none

/-- Only a buried job can be kicked. -/
def kickedUp (job : Job) : Except Err (Option Job) :=
  if job.state = .buried then .ok (some job.kicked) else .error .invalidJobTransition

/-- A job whose reservation has expired is ready again. -/
def lapse (now : Int64) (job : Job) : Job :=
  if job.state = .reserved ∧ job.expiresAt < now then job.released 0 false else job

end Job

/-- The answer to a client that gets no job. -/
def unmatched (clientID : ClientID) (reqID : ReqID) (status : ReservationStatus) :
    Reservation where
  requestId := reqID
  clientId := clientID
  jobId := 0
  status := status
  bodySize := 0
  body := none
  error := none

/-- The answer to a client that gets a job. -/
def handedTo (clientID : ClientID) (reqID : ReqID) (job : Job) : Reservation where
  requestId := reqID
  clientId := clientID
  jobId := job.id
  status := .matched
  bodySize := job.bodySize
  body := job.body
  error := none

namespace Board

variable (board : Board)

/-- A job of the board that belongs in a heap. -/
def Holds (key : HeapKey) (job : Job) : Prop :=
  board.jobs job.id = some job ∧ job.home = some key

/-- The jobs that belong in a heap, in the order of that heap. -/
noncomputable def inOrder (key : HeapKey) : List Job :=
  listing (board.Holds key) key.sortKey

noncomputable def first? (key : HeapKey) : Option Job :=
  (board.inOrder key).head?

/-! ## Commands -/

def setJob (id : JobID) (next : Option Job) : Board :=
  { board with jobs := Function.update board.jobs id next }

/-- A command on one job. -/
def onJob (id : JobID) (decide : Job → Except Err (Option Job)) : Answer × Board :=
  match board.jobs id with
  | none => (.error .entryMissing, board)
  | some job =>
      match decide job with
      | .error error => (.error error, board)
      | .ok next => (.ok .done, board.setJob id next)

def put (nowSeconds : Int64) (priority : UInt32) (delay ttr bodySize : Int64)
    (body : Option Bytes) (tubeName : TubeName) : Answer × Board :=
  let id := board.lastID + 1
  let numbered := { board with lastID := id }
  match board.jobs id with
  | some _ => (.error .entryExists, numbered)
  | none =>
      (.ok (.jobID id), numbered.setJob id
        (some ((Job.initial id nowSeconds priority delay ttr bodySize body tubeName).updateState
          (if 0 < delay then .delayed else .ready))))

def getJob (id : JobID) : Answer × Board :=
  match board.jobs id with
  | none => (.error .entryMissing, board)
  | some job => (.ok (.job job), board)

noncomputable def peek (key : HeapKey) : Answer × Board :=
  match board.first? key with
  | none => (.error .entryMissing, board)
  | some job => (.ok (.job job), board)

/-- The change that `ReleaseWith` makes. -/
def releaseChange (nowSeconds : Int64) (pri : UInt32) (delay : Int64) : Job → Job :=
  if delay = 0 then Job.released pri true else Job.releasedWithDelay nowSeconds pri delay

/-- Kick the first buried jobs of a tube, up to a bound, and count them. -/
noncomputable def kickFirst (tubeName : TubeName) : Nat → Int64 → Board → Answer × Board
  | 0, count, board => (.ok (.count count), board)
  | bound + 1, count, board =>
      match board.first? (.buried tubeName) with
      | none => (.ok (.count count), board)
      | some job =>
          kickFirst tubeName bound (count + 1) (board.setJob job.id (some job.kicked))

/-- The client gets the first job of the first of its tubes that has one; else it stands in line
at all of them. -/
noncomputable def appendReservation (clientID : ClientID) (reqID : ReqID)
    (watchedTubes : List TubeName) (nowSecs deadline : Int64) : Answer × Board :=
  if deadline < nowSecs ∨ nowSecs + maxTimeoutSecs < deadline then
    (.error .invalidResvTimeout, board)
  else if (board.requests clientID).isSome then
    (.error .clientIsWaitingForReservation, board)
  else
    match watchedTubes.findSome? fun tubeName => board.first? (.ready tubeName) with
    | some job =>
        (.ok (.reservation (handedTo clientID reqID job)),
          board.setJob job.id (some (job.reservedFor nowSecs clientID)))
    | none =>
        (.ok (.reservation (unmatched clientID reqID .queued)),
          { board with
            requests := Function.update board.requests clientID (some ⟨reqID, deadline⟩)
            lines := fun tubeName =>
              if tubeName ∈ watchedTubes then board.lines tubeName ++ [clientID]
              else board.lines tubeName })

/-! ## The tick -/

/-- The delayed jobs whose time has come are ready. -/
def wake (now : Int64) : Board :=
  { board with jobs := fun id => (board.jobs id).map (Job.wake now) }

/-- Who gets which job when the tubes are visited in the given order. -/
noncomputable def matching (order : List TubeName) : List (ClientID × Job) :=
  WaitingLine.serve (fun tubeName => board.inOrder (.ready tubeName)) order board.lines

/-- The clients that are answered have no request any more, and stand in no line. -/
def settle (answered : ClientID → Bool) : Board :=
  { board with
    requests := fun clientID => if answered clientID then none else board.requests clientID
    lines := fun tubeName => (board.lines tubeName).filter fun clientID => !answered clientID }

/-- Each job is reserved for the client beside it. -/
def handOut (now : Int64) (pairs : List (ClientID × Job)) : Board :=
  { board.settle fun clientID => decide (clientID ∈ pairs.map Prod.fst) with
    jobs := fun id =>
      match pairs.find? fun pair => decide (pair.2.id = id) with
      | some pair => some (pair.2.reservedFor now pair.1)
      | none => board.jobs id }

/-- The reservations that have expired are over. -/
def lapse (now : Int64) : Board :=
  { board with jobs := fun id => (board.jobs id).map (Job.lapse now) }

/-- A request that has passed its deadline is answered, and so is one of a client whose first
reservation is about to expire. -/
noncomputable def answerTo (now : Int64) (clientID : ClientID) : Option Reservation :=
  match board.requests clientID with
  | none => none
  | some request =>
      if request.deadline < now then some (unmatched clientID request.reqID .timeout)
      else
        match board.first? (.reserved clientID) with
        | none => none
        | some job =>
            if job.expiresAt - 1 < now then
              some (unmatched clientID request.reqID .deadlineSoon)
            else none

/-- The answer to a client that was in line. -/
def matchedAnswer (pair : ClientID × Job) : Reservation :=
  handedTo pair.1 (((board.requests pair.1).map (·.reqID)).getD []) pair.2

/-- The board before the requests without a match are looked at. -/
noncomputable def lapsed (now : Int64) (order : List TubeName) : Board :=
  ((board.wake now).handOut now ((board.wake now).matching order)).lapse now

/-- The board after a tick. -/
noncomputable def ticked (now : Int64) (order : List TubeName) : Board :=
  (board.lapsed now order).settle fun clientID =>
    ((board.lapsed now order).answerTo now clientID).isSome

/-! ## The rules -/

/-- What a command answers, and what it makes of the board. -/
noncomputable def command : Op → Option (Answer × Board)
  | .put nowSeconds priority delay ttr bodySize body tubeName =>
      some (board.put nowSeconds priority delay ttr bodySize body tubeName)
  | .delete jobID clientID => some (board.onJob jobID (Job.deletedBy clientID))
  | .getJob jobID => some (board.getJob jobID)
  | .peekDelayedJob tubeName => some (board.peek (.delayed tubeName))
  | .peekReadyJob tubeName => some (board.peek (.ready tubeName))
  | .peekBuriedJob tubeName => some (board.peek (.buried tubeName))
  | .release jobID clientID =>
      some (board.onJob jobID
        (Job.changedBy .invalidJobTransition clientID (Job.released 0 false)))
  | .releaseWith nowSeconds jobID clientID pri delay =>
      some (board.onJob jobID
        (Job.changedBy .invalidJobTransition clientID (releaseChange nowSeconds pri delay)))
  | .touch nowSeconds jobID clientID =>
      some (board.onJob jobID
        (Job.changedBy .invalidOperation clientID (Job.updateReservation nowSeconds)))
  | .bury nowSeconds jobID priority clientID =>
      some (board.onJob jobID
        (Job.changedBy .invalidJobTransition clientID (Job.buriedWith nowSeconds priority)))
  | .kick jobID => some (board.onJob jobID Job.kickedUp)
  | .kickN tubeName n => some (kickFirst tubeName n.toInt.toNat 0 board)
  | .appendReservation clientID reqID watchedTubes nowSecs deadline =>
      some (board.appendReservation clientID reqID watchedTubes nowSecs deadline)
  | .tick _ _ => none

/-- The rules of the board.  A tick is free to visit the tubes in any order, and to answer the
requests without a match in any order. -/
inductive Step : Op → Answer → Board → Prop where
  | command {op : Op} {answer : Answer} {after : Board}
      (answers : board.command op = some (answer, after)) : Step op answer after
  | tick {now : Int64} {walk : TubeWalk} {order : List TubeName} {answers : List Reservation}
      (once : order.Nodup) (visits : ∀ tubeName, board.lines tubeName ≠ [] → tubeName ∈ order)
      (distinct : answers.Nodup)
      (answered : ∀ resv, resv ∈ answers ↔
        ∃ clientID, (board.lapsed now order).answerTo now clientID = some resv) :
      Step (.tick now walk)
        (.ok (.reservations
          (((board.wake now).matching order).map board.matchedAnswer ++ answers)))
        (board.ticked now order)

end Board

/-! ## What the rules leave open -/

/-- The log entry of an operation, which does not say how the tubes are walked. -/
def Op.entry : Op → Op
  | .tick nowSecs _ => .tick nowSecs .inOrder
  | op => op

theorem Op.entry_cases {op other : Op} (same : op.entry = other.entry) :
    op = other ∨ ∃ now walk otherWalk, op = .tick now walk ∧ other = .tick now otherWalk := by
  cases op with
  | tick now walk =>
      cases other with
      | tick otherNow otherWalk =>
          cases same
          exact Or.inr ⟨now, walk, otherWalk, rfl, rfl⟩
      | _ => cases same
  | _ => cases other <;> first | exact Or.inl same | cases same

/-- Two answers are the same but for the order of the reservations in them. -/
def Answer.Same : Answer → Answer → Prop
  | .ok (.reservations resvs), .ok (.reservations others) => resvs.Perm others
  | answer, other => answer = other

theorem Answer.Same.refl (answer : Answer) : answer.Same answer := by
  cases answer with
  | error error => rfl
  | ok reply =>
      cases reply with
      | reservations resvs => exact List.Perm.refl resvs
      | _ => rfl

namespace Board

variable (board : Board)

/-- No client can be served at two tubes in a tick. -/
def Apart (now : Int64) : Prop :=
  ∀ first second, first ≠ second →
    ∀ clientID ∈ WaitingLine.inReach (fun tubeName => (board.wake now).inOrder (.ready tubeName))
      board.lines first,
    clientID ∉ WaitingLine.inReach (fun tubeName => (board.wake now).inOrder (.ready tubeName))
      board.lines second

variable {board}

theorem holds_of_mem_inOrder {key : HeapKey} {job : Job} (member : job ∈ board.inOrder key) :
    board.Holds key job :=
  member_of_mem_listing member

theorem matching_jobs_nodup {order : List TubeName} (once : order.Nodup) :
    ((board.matching order).map Prod.snd).Nodup := by
  apply WaitingLine.nodup_goods once
  · intro tubeName _
    exact nodup_listing _ _
  · intro first _ second _ different job inFirst inSecond
    have home := (holds_of_mem_inOrder inFirst).2
    rw [(holds_of_mem_inOrder inSecond).2] at home
    cases home
    exact different rfl

theorem holds_of_mem_matching {order : List TubeName} {pair : ClientID × Job}
    (member : pair ∈ board.matching order) : ∃ tubeName, board.Holds (.ready tubeName) pair.2 := by
  obtain ⟨tubeName, _, _, inStock⟩ := WaitingLine.of_mem_serve member
  exact ⟨tubeName, holds_of_mem_inOrder inStock⟩

theorem eq_of_matching_id {order : List TubeName} (once : order.Nodup)
    {first second : ClientID × Job} (firstIn : first ∈ board.matching order)
    (secondIn : second ∈ board.matching order) (same : first.2.id = second.2.id) :
    first = second := by
  obtain ⟨_, firstHeld, _⟩ := holds_of_mem_matching firstIn
  obtain ⟨_, secondHeld, _⟩ := holds_of_mem_matching secondIn
  rw [same, secondHeld] at firstHeld
  exact List.inj_on_of_nodup_map (matching_jobs_nodup once) firstIn secondIn
    (Option.some.inj firstHeld).symm

/-- If no client can be served at two tubes, the order of the visits does not matter. -/
theorem matching_perm {now : Int64} (apart : board.Apart now) {order other : List TubeName}
    (once : order.Nodup) (visits : ∀ tubeName, board.lines tubeName ≠ [] → tubeName ∈ order)
    (otherOnce : other.Nodup)
    (otherVisits : ∀ tubeName, board.lines tubeName ≠ [] → tubeName ∈ other) :
    ((board.wake now).matching order).Perm ((board.wake now).matching other) :=
  WaitingLine.serve_perm once visits otherOnce otherVisits apart

theorem handOut_eq_of_perm (now : Int64) {order : List TubeName} (once : order.Nodup)
    {pairs : List (ClientID × Job)} (perm : (board.matching order).Perm pairs) :
    board.handOut now (board.matching order) = board.handOut now pairs := by
  have found : ∀ id, (board.matching order).find? (fun pair => decide (pair.2.id = id)) =
      pairs.find? fun pair => decide (pair.2.id = id) := by
    intro id
    apply List.find?_eq_find?_of_perm perm
    rintro first ⟨firstIn, isFirst⟩ second ⟨secondIn, isSecond⟩
    rw [decide_eq_true_eq] at isFirst isSecond
    exact eq_of_matching_id once firstIn secondIn (isFirst.trans isSecond.symm)
  have same : (fun clientID => decide (clientID ∈ (board.matching order).map Prod.fst)) =
      fun clientID => decide (clientID ∈ pairs.map Prod.fst) := by
    funext clientID
    rw [decide_eq_decide, (perm.map Prod.fst).mem_iff]
  unfold handOut
  simp only [found, same]

/-- The rules determine what an entry of the log does, up to the order of the answers. -/
theorem Step.determined {op other : Op} {answer otherAnswer : Answer} {after otherAfter : Board}
    (step : board.Step op answer after) (otherStep : board.Step other otherAnswer otherAfter)
    (sameEntry : op.entry = other.entry)
    (apart : ∀ now walk, op = .tick now walk → board.Apart now) :
    answer.Same otherAnswer ∧ after = otherAfter := by
  cases step with
  | command answers =>
      obtain rfl | ⟨_, _, _, rfl, _⟩ := Op.entry_cases sameEntry
      swap
      · cases answers
      cases otherStep with
      | command otherAnswers =>
          rw [answers] at otherAnswers
          cases otherAnswers
          exact ⟨.refl _, rfl⟩
      | tick => cases answers
  | @tick now walk order answers once visits distinct answered =>
      cases otherStep with
      | command otherAnswers =>
          cases other <;> first | cases otherAnswers | cases sameEntry
      | @tick _ _ otherOrder _ otherOnce otherVisits otherDistinct otherAnswered =>
          cases sameEntry
          have perm := matching_perm (apart now walk rfl) once visits otherOnce otherVisits
          have sameLapsed : board.lapsed now order = board.lapsed now otherOrder := by
            unfold lapsed
            rw [handOut_eq_of_perm now once perm]
          rw [← sameLapsed] at otherAnswered
          constructor
          · apply List.Perm.append
            · exact perm.map _
            · apply (List.perm_ext_iff_of_nodup distinct otherDistinct).mpr
              intro resv
              rw [answered, otherAnswered]
          · unfold ticked
            rw [sameLapsed]

end Board

end Coolbeans
