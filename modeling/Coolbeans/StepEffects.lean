import Coolbeans.JobRuns
import Coolbeans.TickStages

/-!
# What an operation can do

One case for each way in which an operation can end, with its effect on the
records of the jobs and on the clients.  The invariants of whole runs are
derived from these cases.
-/

namespace Coolbeans

open FiniteMap PositionHeap StatefulProgram

/-- The job and the client of an operation that gives up a reservation. -/
def Op.givesUp : Op → Option (JobID × ClientID)
  | .release jobID clientID | .releaseWith _ jobID clientID _ _ | .bury _ jobID _ clientID =>
      some (jobID, clientID)
  | _ => none

/-- The job and the client of an operation on a job that a client holds. -/
def Op.actsOn : Op → Option (JobID × ClientID)
  | .delete jobID clientID | .release jobID clientID | .releaseWith _ jobID clientID _ _
  | .touch _ jobID clientID | .bury _ jobID _ clientID => some (jobID, clientID)
  | _ => none

/-- A reserved job has left its owner. -/
structure GivenUp (kinds : Kinds) (id : JobID) (record next : Job) (before after : JSM) :
    Prop where
  inv : JobsOk kinds after
  was : before.recordOf id = some record
  records : ∀ other, after.recordOf other =
    if other = id then some next else before.recordOf other
  left : next.state ≠ .reserved
  clients : after.clientView = before.clientView
  maxJobID : after.maxJobID = before.maxJobID
  tickAt : after.nextDelayTickAt ≤ before.nextDelayTickAt
  tickAtNext : next.state = .delayed → after.nextDelayTickAt ≤ next.readyAt

/-- The ways in which an operation can end. -/
inductive Effect (kinds : Kinds) (before : JSM) : Op → Answer → JSM → Prop where
  | refused {op : Op} {error : Err} {after : JSM} (same : SameViews before after) :
      Effect kinds before op (.error error) after
  | looked {op : Op} {record : Job} (reads : op.actsOn = none) :
      Effect kinds before op (.ok (.job record)) before
  | put {nowSeconds : Int64} {priority : UInt32} {delay ttr bodySize : Int64}
      {body : Option Bytes} {tubeName : TubeName} {after : JSM}
      (absent : before.recordOf (before.maxJobID + 1) = none)
      (done : PutDone kinds (before.delayTickAfterPut nowSeconds delay) before after)
      (records : ∀ other, after.recordOf other =
        if other = before.maxJobID + 1 then
          some ((Job.initial (before.maxJobID + 1) nowSeconds priority delay ttr bodySize body
            tubeName).updateState (if 0 < delay then .delayed else .ready))
        else before.recordOf other) :
      Effect kinds before (.put nowSeconds priority delay ttr bodySize body tubeName)
        (.ok (.jobID (before.maxJobID + 1))) after
  | putTaken {nowSeconds : Int64} {priority : UInt32} {delay ttr bodySize : Int64}
      {body : Option Bytes} {tubeName : TubeName} {error : Err} {after : JSM}
      (taken : before.recordOf (before.maxJobID + 1) ≠ none)
      (done : PutDone kinds (before.delayTickAfterPut nowSeconds delay) before after)
      (records : ∀ other, after.recordOf other = before.recordOf other) :
      Effect kinds before (.put nowSeconds priority delay ttr bodySize body tubeName)
        (.error error) after
  | deleted {jobID : JobID} {clientID : ClientID} {answer : Answer} {after : JSM}
      (deleted : Deleted kinds jobID before after)
      (allowed : kinds.held .reserved → answer = .ok .done ∧ ∃ record,
        before.recordOf jobID = some record ∧
        (record.state = .reserved → record.reservedBy = clientID)) :
      Effect kinds before (.delete jobID clientID) answer after
  | givenUp {op : Op} {jobID : JobID} {clientID : ClientID} {record next : Job} {after : JSM}
      (gives : op.givesUp = some (jobID, clientID)) (owned : record.OwnedBy clientID)
      (done : GivenUp kinds jobID record next before after) :
      Effect kinds before op (.ok .done) after
  | kicked {jobID : JobID} {record : Job} {after : JSM} (isBuried : record.state = .buried)
      (moved : Moved kinds jobID record record.kicked before after) :
      Effect kinds before (.kick jobID) (.ok .done) after
  | kickedSome {tubeName : TubeName} {n : Int64} {answer : Answer} {after : JSM}
      (kicked : KickedSome kinds before after)
      (counts : ∀ reply, answer = .ok reply → ∃ count, reply = .count count) :
      Effect kinds before (.kickN tubeName n) answer after
  | touched {nowSeconds : Int64} {jobID : JobID} {clientID : ClientID} {record : Job}
      {middle after : JSM} {cli : CliPtr} (owned : record.OwnedBy clientID)
      (moved : Moved kinds jobID record (record.updateReservation nowSeconds) before middle)
      (registered : cli ∈ middle.clients.entries) (named : cli.cliID = clientID)
      (rescheduled : Rescheduled cli (middle.tickAtFor cli) middle after)
      (clients : ClientsOk after) :
      Effect kinds before (.touch nowSeconds jobID clientID) (.ok .done) after
  | touchedOrphan {nowSeconds : Int64} {jobID : JobID} {clientID : ClientID} {record : Job}
      {error : Err} {after : JSM} (owned : record.OwnedBy clientID)
      (moved : Moved kinds jobID record (record.updateReservation nowSeconds) before after)
      (orphan : ∀ cli ∈ before.clients.entries, cli.cliID ≠ clientID) :
      Effect kinds before (.touch nowSeconds jobID clientID) (.error error) after
  | appended {clientId : ClientID} {reqID : ReqID} {watchedTubes : List TubeName}
      {nowSecs resvDeadlineAt : Int64} {resv : Reservation} {cli : CliPtr} {middle after : JSM}
      (inTime : nowSecs ≤ resvDeadlineAt)
      (appended : Appended kinds clientId reqID watchedTubes nowSecs resvDeadlineAt resv cli
        before middle after) :
      Effect kinds before (.appendReservation clientId reqID watchedTubes nowSecs resvDeadlineAt)
        (.ok (.reservation resv)) after
  | ticked {nowSecs : Int64} {walk : TubeWalk} {matched : List (CliPtr × Job)}
      {processed : List CliPtr} {answers : List Reservation} {woken served after : JSM}
      (done : TickDone kinds nowSecs walk matched processed answers before woken served after) :
      Effect kinds before (.tick nowSecs walk)
        (.ok (.reservations (matchedReservations before matched ++ answers))) after

/-- The deadline of an accepted request is before the end of time. -/
def Op.DeadlineBounded : Op → Prop
  | .appendReservation _ _ _ nowSecs resvDeadlineAt =>
      nowSecs ≤ resvDeadlineAt → resvDeadlineAt ≤ nowSecs + maxTimeoutSecs →
        resvDeadlineAt < maxTime
  | _ => True

instance : DecidablePred Op.DeadlineBounded
  | .appendReservation _ _ _ nowSecs resvDeadlineAt =>
      inferInstanceAs (Decidable (nowSecs ≤ resvDeadlineAt →
        resvDeadlineAt ≤ nowSecs + maxTimeoutSecs → resvDeadlineAt < maxTime))
  | .put .. | .delete .. | .getJob _ | .peekDelayedJob _ | .peekReadyJob _ | .peekBuriedJob _
  | .release .. | .releaseWith .. | .touch .. | .bury .. | .kick _ | .kickN .. | .tick .. =>
      isTrue trivial

/-- A request lists no tube twice. -/
def Op.TubesNodup : Op → Prop
  | .appendReservation _ _ watchedTubes _ _ => watchedTubes.Nodup
  | _ => True

instance : DecidablePred Op.TubesNodup
  | .appendReservation _ _ watchedTubes _ _ => inferInstanceAs (Decidable watchedTubes.Nodup)
  | .put .. | .delete .. | .getJob _ | .peekDelayedJob _ | .peekReadyJob _ | .peekBuriedJob _
  | .release .. | .releaseWith .. | .touch .. | .bury .. | .kick _ | .kickN .. | .tick .. =>
      isTrue trivial

section Effects

variable {kinds : Kinds} {jsm : JSM}

theorem GivenUp.of_moved {id : JobID} {record next : Job} {after : JSM}
    (moved : Moved kinds id record next jsm after) (left : next.state ≠ .reserved)
    (notDelayed : next.state ≠ .delayed) : GivenUp kinds id record next jsm after where
  inv := moved.inv
  was := moved.was
  records := moved.records
  left := left
  clients := moved.frame.clients
  maxJobID := moved.frame.maxJobID
  tickAt := by
    rw [moved.frame.nextDelayTickAt]
    exact Int64.le_refl _
  tickAtNext := fun isDelayed => absurd isDelayed notDelayed

theorem findClient_apply (clientID : ClientID) :
    (∃ cli ∈ jsm.clients.entries, cli.cliID = clientID ∧ findClient clientID jsm = .ok cli jsm) ∨
    (∀ cli ∈ jsm.clients.entries, cli.cliID ≠ clientID) ∧
      ∃ error, findClient clientID jsm = .err error jsm := by
  unfold findClient
  cases found : jsm.clients.find clientID with
  | ok cli =>
      obtain ⟨member, named⟩ := (jsm.clients.find_eq_ok_iff clientID cli).mp found
      exact Or.inl ⟨cli, member, named, rfl⟩
  | error error =>
      obtain ⟨_, nobody⟩ := (jsm.clients.find_eq_error_iff clientID error).mp found
      exact Or.inr ⟨nobody, error, rfl⟩

theorem ends_releaseWith (inv : JobsOk kinds jsm) (nowSeconds : Int64) {id : JobID}
    (clientID : ClientID) (pri : UInt32) (delay : Int64) :
    (releaseWith nowSeconds id clientID pri delay jsm).Ends
      (fun _ after => ∃ record next, record.OwnedBy clientID ∧
        GivenUp kinds id record next jsm after)
      (fun _ after => SameViews jsm after) (¬ kinds.held .reserved) := by
  unfold releaseWith
  split
  · refine (ends_fromReservedToReady inv clientID pri true).mono ?_ (fun _ _ failed => failed.1)
      fun holds => holds
    rintro _ after ⟨record, owned, moved⟩
    exact ⟨record, _, owned, .of_moved moved (by simp [Job.released]) (by simp [Job.released])⟩
  · refine (ends_fromReservedToDelayed inv nowSeconds clientID pri delay).mono ?_
      (fun _ _ failed => failed.1) fun holds => holds
    rintro _ after ⟨record, middle, owned, moved, rfl⟩
    have readyAt : (record.releasedWithDelay nowSeconds pri delay).readyAt =
        nowSeconds + delay := by
      simp [Job.releasedWithDelay]
    have lowered := moved.frame.nextDelayTickAt
    rw [JSM.lowerNextDelayTickAt_eq]
    refine ⟨record, _, owned,
      { inv := moved.inv.congr rfl rfl rfl rfl fun key => by cases key <;> rfl
        was := moved.was
        records := moved.records
        left := by simp [Job.releasedWithDelay]
        clients := moved.frame.clients
        maxJobID := moved.frame.maxJobID
        tickAt := ?_
        tickAtNext := fun _ => ?_ }⟩
    · dsimp only
      rw [← lowered]
      split
      next less => exact Int64.le_of_lt less
      next => exact Int64.le_refl _
    · rw [readyAt]
      dsimp only
      split
      next => exact Int64.le_refl _
      next notLess => exact Int64.not_lt.mp notLess

theorem ends_touch (inv : JobsOk kinds jsm) (clientsOk : ClientsOk jsm) (nowSeconds : Int64)
    (id : JobID) (clientID : ClientID)
    (named : kinds.held .reserved → TouchesOwn jsm (.touch nowSeconds id clientID)) :
    (touch nowSeconds id clientID jsm).Ends
      (fun _ after => Effect kinds jsm (.touch nowSeconds id clientID) (.ok .done) after)
      (fun error after => Effect kinds jsm (.touch nowSeconds id clientID) (.error error) after)
      (¬ kinds.held .reserved) := by
  refine Prog.ends_bind ((ends_touchMove inv nowSeconds clientID named).mono
    (fun _ _ holds => holds) (fun _ _ failed => .refused failed.1) fun holds => holds) ?_
  rintro _ middle ⟨record, owned, moved⟩
  obtain ⟨clients, _⟩ := moved.frame.fields
  have clientsMiddle := clientsOk.of_clientView moved.frame.clients
  rcases @findClient_apply middle clientID with
    ⟨cli, registered, isNamed, finds⟩ | ⟨nobody, error, fails⟩
  · rw [Prog.bind_apply, finds, Outcome.ok_andThen]
    refine (ends_updateClientTickAt clientsMiddle.inv registered fun never => ?_).mono ?_
      (fun _ _ => False.elim) False.elim
    · unfold JSM.wanted
      refine if_neg fun waiting => never ?_
      exact JSM.tickAtFor_lt_maxTime waiting (clientsMiddle.deadline cli registered waiting)
    · rintro _ after ⟨invAfter, rescheduled⟩
      exact .touched owned moved registered isNamed rescheduled
        (clientsMiddle.of_rescheduled invAfter rescheduled)
  · rw [Prog.bind_apply, fails, Outcome.err_andThen]
    exact .touchedOrphan owned moved (clients ▸ nobody)

theorem peek_effect {op : Op} (reads : op.actsOn = none) (key : HeapKey)
    (isPeek : op.run = (do
      let entry ← peekAt key
      Prog.gets fun jsm => Reply.job (jsm.jobOf entry))) :
    (op.run jsm).Ends (fun reply => Effect kinds jsm op (.ok reply))
      (fun error => Effect kinds jsm op (.error error)) False := by
  rw [isPeek, Prog.bind_apply, peekAt]
  cases (jsm.heapAt key).head? with
  | none => exact .refused ⟨rfl, .refl jsm⟩
  | some entry => exact .looked reads

/-- Every operation ends in one of the ways listed. -/
theorem ends_effect (inv : JobsOk kinds jsm) (clientsOk : ClientsOk jsm)
    (readyExact : kinds .ready) (delayedExact : kinds .delayed) (op : Op)
    (touchesOwn : kinds.held .reserved → TouchesOwn jsm op)
    (deletesNoBuried : kinds .buried → DeletesNoBuried jsm op) (bounded : op.DeadlineBounded) :
    (op.run jsm).Ends (fun reply => Effect kinds jsm op (.ok reply))
      (fun error => Effect kinds jsm op (.error error))
      (¬ (kinds .reserved ∧ op.TubesNodup)) := by
  cases op with
  | put nowSeconds priority delay ttr bodySize body tubeName =>
      refine Prog.ends_map ((ends_put inv nowSeconds priority delay ttr bodySize body
        tubeName).mono ?_ ?_ False.elim)
      · rintro id after ⟨rfl, absent, done, records⟩
        exact .put absent done records
      · rintro _ after ⟨taken, done, records⟩
        exact .putTaken taken done records
  | delete jobID clientID =>
      refine Prog.ends_map ((ends_delete inv clientID (kinds.held_of_exact _ readyExact)
        (kinds.held_of_exact _ delayedExact) deletesNoBuried).mono ?_ ?_
        fun unheld strong => unheld (kinds.held_of_exact _ strong.1))
      · rintro _ after ⟨deleted, allowed⟩
        exact .deleted deleted fun _ => ⟨rfl, allowed⟩
      · rintro _ after (⟨rfl, _⟩ | ⟨unheld, deleted⟩)
        · exact .refused ⟨rfl, .refl _⟩
        · exact .deleted deleted fun held => absurd held unheld
  | getJob jobID =>
      refine Prog.ends_map ?_
      rw [getJob_apply]
      cases jsm.recordOf jobID with
      | none => exact .refused ⟨rfl, .refl jsm⟩
      | some record => exact .looked rfl
  | peekDelayedJob tubeName =>
      exact (peek_effect rfl (.delayed tubeName) rfl).mono (fun _ _ holds => holds)
        (fun _ _ holds => holds) False.elim
  | peekReadyJob tubeName =>
      exact (peek_effect rfl (.ready tubeName) rfl).mono (fun _ _ holds => holds)
        (fun _ _ holds => holds) False.elim
  | peekBuriedJob tubeName =>
      exact (peek_effect rfl (.buried tubeName) rfl).mono (fun _ _ holds => holds)
        (fun _ _ holds => holds) False.elim
  | release jobID clientID =>
      refine Prog.ends_map ((ends_fromReservedToReady inv clientID 0 false).mono ?_
        (fun _ _ failed => .refused failed.1)
        fun unheld strong => unheld (kinds.held_of_exact _ strong.1))
      rintro _ after ⟨record, owned, moved⟩
      exact .givenUp rfl owned
        (.of_moved moved (by simp [Job.released]) (by simp [Job.released]))
  | releaseWith nowSeconds jobID clientID pri delay =>
      refine Prog.ends_map ((ends_releaseWith inv nowSeconds clientID pri delay).mono ?_
        (fun _ _ failed => .refused failed)
        fun unheld strong => unheld (kinds.held_of_exact _ strong.1))
      rintro _ after ⟨record, next, owned, done⟩
      exact .givenUp rfl owned done
  | touch nowSeconds jobID clientID =>
      exact Prog.ends_map ((ends_touch inv clientsOk nowSeconds jobID clientID touchesOwn).mono
        (fun _ _ holds => holds) (fun _ _ holds => holds)
        fun unheld strong => unheld (kinds.held_of_exact _ strong.1))
  | bury nowSeconds jobID priority clientID =>
      refine Prog.ends_map ((ends_fromReservedToBuried inv nowSeconds priority clientID).mono ?_
        (fun _ _ failed => .refused failed.1)
        fun unheld strong => unheld (kinds.held_of_exact _ strong.1))
      rintro _ after ⟨record, owned, moved⟩
      exact .givenUp rfl owned
        (.of_moved moved (by simp [Job.buriedWith]) (by simp [Job.buriedWith]))
  | kick jobID =>
      refine Prog.ends_map ((ends_fromBuriedToReady inv).mono ?_
        (fun _ _ failed => .refused failed.1) False.elim)
      rintro _ after ⟨record, isBuried, moved⟩
      exact .kicked isBuried moved
  | kickN tubeName n =>
      refine Prog.ends_map ((ends_kickN inv tubeName n).mono ?_ ?_ False.elim)
      · rintro count after kicked
        exact .kickedSome kicked fun reply isReply => by cases isReply; exact ⟨count, rfl⟩
      · rintro error after ⟨kicked, _⟩
        exact .kickedSome kicked fun reply isReply => by cases isReply
  | appendReservation clientId reqID watchedTubes nowSecs resvDeadlineAt =>
      refine Prog.ends_map ((ends_appendReservation inv clientsOk readyExact clientId reqID
        watchedTubes bounded).mono ?_ ?_ fun twice strong => twice strong.2)
      · rintro resv after ⟨inTime, cli, middle, appended⟩
        exact .appended inTime appended
      · rintro error after ⟨rfl, _⟩
        exact .refused ⟨rfl, .refl _⟩
  | tick nowSecs walk =>
      refine Prog.ends_map ((ends_tick inv clientsOk readyExact delayedExact walk).mono ?_
        (fun _ _ => False.elim) fun inexact strong => inexact strong.1)
      rintro _ after ⟨matched, processed, answers, woken, served, done, rfl⟩
      exact .ticked done

/-! ## What all of them keep -/

variable {op : Op} {answer : Answer} {after : JSM}

theorem Effect.jobsOk (effect : Effect kinds jsm op answer after) (inv : JobsOk kinds jsm) :
    JobsOk kinds after := by
  cases effect with
  | refused same => exact inv.of_sameViews same
  | looked => exact inv
  | put _ done => exact done.inv
  | putTaken _ done => exact done.inv
  | deleted deleted => exact deleted.inv
  | givenUp _ _ done => exact done.inv
  | kicked _ moved => exact moved.inv
  | kickedSome kicked => exact kicked.inv
  | touched _ moved _ _ rescheduled => exact moved.inv.of_clientFrame rescheduled.frame
  | touchedOrphan _ moved => exact moved.inv
  | appended _ appended => exact appended.jobs
  | ticked done => exact done.clients.jobs

theorem Effect.clientsOk (effect : Effect kinds jsm op answer after) (clientsOk : ClientsOk jsm) :
    ClientsOk after := by
  cases effect with
  | refused same => exact clientsOk.of_clientView same.frame.clients
  | looked => exact clientsOk
  | put _ done => exact clientsOk.of_clientView done.clients
  | putTaken _ done => exact clientsOk.of_clientView done.clients
  | deleted deleted => exact clientsOk.of_clientView deleted.frame.clients
  | givenUp _ _ done => exact clientsOk.of_clientView done.clients
  | kicked _ moved => exact clientsOk.of_clientView moved.frame.clients
  | kickedSome kicked => exact clientsOk.of_clientView kicked.frame.clients
  | touched _ _ _ _ _ clients => exact clients
  | touchedOrphan _ moved => exact clientsOk.of_clientView moved.frame.clients
  | appended _ appended => exact appended.clients
  | ticked done => exact done.clients.clients

end Effects

end Coolbeans
