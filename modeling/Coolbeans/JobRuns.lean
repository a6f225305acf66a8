import Coolbeans.InvariantRules
import Coolbeans.MatchSteps
import Coolbeans.TickDelay
import Mathlib.Logic.Relation

/-!
# The moves of jobs along a run

An operation changes the records of jobs one at a time, and only by the transitions of the
state machine.  `Move` lists them, each with the condition under which an operation makes it.
Every operation, whether or not it succeeds, is a chain of moves, so what each move keeps is
kept by all operations.

The moves keep the ready and the delayed heaps exact, whatever the clients and the clocks.
The reserved heaps stay exact as long as nobody touches a job of somebody else, and the
buried heaps as long as no buried job is deleted.
-/

namespace Coolbeans

open FiniteMap PositionHeap Relation StatefulProgram

/-! ## Moves -/

/-- The clock at which an operation matches clients with jobs. -/
def LifeCycle.matchesAt : Op → Option Int64
  | .appendReservation _ _ _ nowSecs _ | .tick nowSecs _ => some nowSecs
  | _ => none

/-- What an operation can make of the record of a job in a state.  A reserved job is due in a
tick when an entry with its id on a heap of reserved jobs has expired. -/
inductive Move (op : Op) (jsm : JSM) (id : JobID) : Option Job → Option Job → Prop where
  | entered {nowSeconds : Int64} {priority : UInt32} {delay ttr bodySize : Int64}
      {body : Option Bytes} {tubeName : TubeName}
      (puts : op = .put nowSeconds priority delay ttr bodySize body tubeName) :
      Move op jsm id none
        (some ((Job.initial id nowSeconds priority delay ttr bodySize body tubeName).updateState
          (if 0 < delay then .delayed else .ready)))
  | woken {nowSecs : Int64} {walk : TubeWalk} {record : Job} (ticks : op = .tick nowSecs walk)
      (due : record.readyAt < nowSecs) (leaves : record.state = .delayed) :
      Move op jsm id (some record) (some (record.updateState .ready))
  | matched {nowSecs : Int64} {clientID : ClientID} {record : Job}
      (serves : LifeCycle.matchesAt op = some nowSecs) (leaves : record.state = .ready) :
      Move op jsm id (some record) (some (record.reservedFor nowSecs clientID))
  | expired {nowSecs : Int64} {walk : TubeWalk} {clientID : ClientID} {entry : Nat}
      {record : Job} (ticks : op = .tick nowSecs walk)
      (held : entry ∈ jsm.heapAt (.reserved clientID)) (isEntry : (jsm.jobOf entry).id = id)
      (due : (jsm.jobOf entry).expiresAt < nowSecs) (owned : record.OwnedBy clientID) :
      Move op jsm id (some record) (some (record.released 0 false))
  | released {clientID : ClientID} {record : Job} (asks : op = .release id clientID)
      (owned : record.OwnedBy clientID) :
      Move op jsm id (some record) (some (record.released 0 false))
  | releasedNow {nowSeconds delay : Int64} {clientID : ClientID} {pri : UInt32} {record : Job}
      (asks : op = .releaseWith nowSeconds id clientID pri delay) (isNow : delay = 0)
      (owned : record.OwnedBy clientID) :
      Move op jsm id (some record) (some (record.released pri true))
  | releasedLater {nowSeconds delay : Int64} {clientID : ClientID} {pri : UInt32} {record : Job}
      (asks : op = .releaseWith nowSeconds id clientID pri delay) (isLater : delay ≠ 0)
      (owned : record.OwnedBy clientID) :
      Move op jsm id (some record) (some (record.releasedWithDelay nowSeconds pri delay))
  | touched {nowSeconds : Int64} {clientID : ClientID} {record : Job}
      (asks : op = .touch nowSeconds id clientID) (owned : record.OwnedBy clientID) :
      Move op jsm id (some record) (some (record.updateReservation nowSeconds))
  | buried {nowSeconds : Int64} {priority : UInt32} {clientID : ClientID} {record : Job}
      (asks : op = .bury nowSeconds id priority clientID) (owned : record.OwnedBy clientID) :
      Move op jsm id (some record) (some (record.buriedWith nowSeconds priority))
  | kicked {record : Job} (asks : op = .kick id) (leaves : record.state = .buried) :
      Move op jsm id (some record) (some record.kicked)
  | kickedFirst {tubeName : TubeName} {n : Int64} {entry : Nat} {record : Job}
      (asks : op = .kickN tubeName n) (held : entry ∈ jsm.heapAt (.buried tubeName))
      (isEntry : (jsm.jobOf entry).id = id) (leaves : record.state = .buried) :
      Move op jsm id (some record) (some record.kicked)
  | deleted {clientID : ClientID} {record : Job} (asks : op = .delete id clientID) :
      Move op jsm id (some record) none

/-- The records stay as they are, or one of them makes a move. -/
inductive Moves (op : Op) (before after : JSM) : Prop where
  | rests (same : after.recordOf = before.recordOf) (kept : JobsKept before after)
  | makes {id : JobID} {next : Option Job} (move : Move op before id (before.recordOf id) next)
      (records : ∀ other, after.recordOf other = if other = id then next else before.recordOf other)
      (kept : JobsKept before after) (jobs : ∃ kinds, JobsOk kinds before)

theorem JobsKept.of_moves {op : Op} {before after : JSM}
    (moves : ReflTransGen (Moves op) before after) : JobsKept before after := by
  induction moves with
  | refl => exact .refl before
  | tail _ step induction =>
      cases step with
      | rests _ kept | makes _ _ kept => exact induction.trans kept

/-- What every move of a job keeps holds of its record after the moves. -/
theorem recordOf_of_moves {op : Op} {before after : JSM} {id : JobID}
    (holds : Option Job → Prop) (moves : ReflTransGen (Moves op) before after)
    (start : holds (before.recordOf id))
    (keeps : ∀ jsm was next, holds was → Move op jsm id was next → holds next) :
    holds (after.recordOf id) := by
  induction moves with
  | refl => exact start
  | tail _ step induction =>
      cases step with
      | rests same => rwa [same]
      | makes move records =>
          rw [records]
          split
          next isTaken =>
            subst isTaken
            exact keeps _ _ _ induction move
          next => exact induction

/-- The steps that keep the reserved heaps exact: a job is touched by its owner
only. -/
def TouchesOwn (jsm : JSM) : Op → Prop
  | .touch _ jobID clientID => ∀ record, jsm.recordOf jobID = some record →
      record.OwnedBy clientID → record.reservedBy = clientID
  | _ => True

instance (jsm : JSM) (op : Op) : Decidable (TouchesOwn jsm op) := by
  unfold TouchesOwn
  split
  next jobID clientID =>
    exact inferInstanceAs (Decidable (∀ record ∈ jsm.recordOf jobID,
      record.state = .reserved ∧ (clientID = [] ∨ record.reservedBy = clientID) →
        record.reservedBy = clientID))
  next => infer_instance

/-- The steps that keep the buried heaps exact: no buried job is deleted. -/
def DeletesNoBuried (jsm : JSM) : Op → Prop
  | .delete jobID _ => ∀ record, jsm.recordOf jobID = some record → record.state ≠ .buried
  | _ => True

/-! ## One operation -/

/-- A state in the course of an operation. -/
structure Along (kinds : Kinds) (op : Op) (start jsm : JSM) : Prop where
  jobs : JobsOk kinds jsm
  moves : ReflTransGen (Moves op) start jsm

namespace Along

variable {kinds : Kinds} {op : Op} {start jsm after : JSM}

theorem refl (jobs : JobsOk kinds jsm) (op : Op) : Along kinds op jsm jsm :=
  ⟨jobs, .refl⟩

theorem rests (along : Along kinds op start jsm) (jobs : JobsOk kinds after)
    (same : after.recordOf = jsm.recordOf) (kept : JobsKept jsm after) :
    Along kinds op start after :=
  ⟨jobs, along.moves.tail (.rests same kept)⟩

theorem of_clientFrame (along : Along kinds op start jsm) (frame : ClientFrame jsm after) :
    Along kinds op start after :=
  along.rests (along.jobs.of_clientFrame frame) frame.recordOf
    (.of_jobView frame.jobs frame.maxJobID)

theorem of_sameViews (along : Along kinds op start jsm) (same : SameViews jsm after) :
    Along kinds op start after :=
  along.rests (along.jobs.of_sameViews same) same.recordOf
    (.of_jobView same.jobs same.frame.maxJobID)

/-- Setting the timer of delayed jobs moves no job. -/
theorem timer (along : Along kinds op start jsm) (tickAt : Int64) :
    Along kinds op start { jsm with nextDelayTickAt := tickAt } :=
  along.rests (along.jobs.congr rfl rfl rfl rfl fun key => by cases key <;> rfl) rfl
    (.of_jobView rfl rfl)

theorem lowerNextDelayTickAt (along : Along kinds op start jsm) (readyAt : Int64) :
    Along kinds op start (jsm.lowerNextDelayTickAt readyAt) := by
  unfold JSM.lowerNextDelayTickAt
  split
  · exact along.timer readyAt
  · exact along

theorem makes {id : JobID} {record next : Job} (along : Along kinds op start jsm)
    (moved : Moved kinds id record next jsm after)
    (move : Move op jsm id (some record) (some next)) : Along kinds op start after := by
  refine ⟨moved.inv, along.moves.tail (.makes ?_ moved.records (.of_moved along.jobs moved)
    ⟨kinds, along.jobs⟩)⟩
  rw [moved.was]
  exact move

theorem deletes {id : JobID} {clientID : ClientID}
    (along : Along kinds (.delete id clientID) start jsm) (deleted : Deleted kinds id jsm after) :
    Along kinds (.delete id clientID) start after := by
  cases present : jsm.recordOf id with
  | none =>
      refine along.rests deleted.inv ?_ deleted.kept
      funext other
      rw [deleted.records]
      split
      next isJob => rw [isJob, present]
      next => rfl
  | some record =>
      refine ⟨deleted.inv, along.moves.tail (.makes ?_ deleted.records deleted.kept
        ⟨kinds, along.jobs⟩)⟩
      rw [present]
      exact .deleted rfl

theorem clientClosed : ClientClosed (Along kinds op start) where
  updateClient jsm cli change along := along.of_clientFrame (.updateClient jsm cli change)
  putClientHeap jsm heap along := along.of_clientFrame (.putClientHeap jsm heap)
  setClients jsm clients along := along.of_clientFrame (.setClients jsm clients)
  setWaiting jsm tubeName queue along := along.of_clientFrame (.setWaiting jsm tubeName queue)
  createTube jsm tubeName along := along.of_clientFrame (.createTube jsm tubeName)
  allocClient _ _ _ along := along.of_clientFrame ⟨rfl, rfl, rfl, fun _ present => present⟩

theorem matchRules {nowSecs : Int64} (serves : LifeCycle.matchesAt op = some nowSecs) :
    MatchRules nowSecs (Along kinds op start) fun _ => True := by
  refine clientClosed.matchRules fun jsm _ _ clientID along _ => ?_
  refine (ends_fromReadyToReserved along.jobs nowSecs clientID).mono ?_ (fun _ _ _ => trivial)
    fun _ => trivial
  rintro _ after ⟨record, isReady, moved, _⟩
  exact along.makes moved (.matched serves isReady)

theorem tickRules (delayedExact : kinds .delayed) (nowSecs : Int64) (walk : TubeWalk) :
    TickRules nowSecs (Along kinds (.tick nowSecs walk) start) fun _ => True where
  toMatchRules := matchRules rfl
  timer jsm tickAt along := along.timer tickAt
  wake jsm tubeName entry along head due := by
    refine (ends_fromDelayedToReady along.jobs).mono ?_ (fun _ _ _ => trivial) fun _ => trivial
    rintro _ after ⟨record, isDelayed, moved⟩
    obtain ⟨recorded, _⟩ := along.jobs.recordOf_jobOf (.delayed tubeName) delayedExact
      (List.mem_of_head? head)
    -- the delayed heap is exact, so the job at its head is the one in the index
    have isHead := recorded.symm.trans moved.was
    cases isHead
    exact along.makes moved (.woken rfl due isDelayed)
  expire jsm clientID entry along head due := by
    refine (ends_fromReservedToReady along.jobs clientID 0 false).mono ?_ (fun _ _ _ => trivial)
      fun _ => trivial
    rintro _ after ⟨record, owned, moved⟩
    exact along.makes moved (.expired rfl (List.mem_of_head? head) rfl due owned)
  clientHeapDequeue := clientClosed.ends_clientHeapDequeue

theorem ends_kickLoop {tubeName : TubeName} {n : Int64} (rounds : Nat) (count : Int64)
    (along : Along kinds (.kickN tubeName n) start jsm) :
    (kickLoop tubeName rounds count jsm).Ends (fun _ => Along kinds (.kickN tubeName n) start)
      (fun _ => Along kinds (.kickN tubeName n) start) True := by
  induction rounds generalizing count jsm with
  | zero => exact along
  | succ rounds induction =>
      cases head : (jsm.heapAt (.buried tubeName)).head? with
      | none =>
          rw [kickLoop_of_none head]
          exact along
      | some entry =>
          rw [kickLoop_of_some head]
          refine Prog.ends_bind ((ends_fromBuriedToReady along.jobs).mono (fun _ _ kicks => kicks)
            (fun _ _ failed => along.of_sameViews failed.1) fun _ => trivial) ?_
          rintro _ middle ⟨record, isBuried, moved⟩
          exact induction (count + 1) (along.makes moved
            (.kickedFirst rfl (List.mem_of_head? head) rfl isBuried))

theorem ends_peek (along : Along kinds op start jsm) {key : HeapKey} :
    ((do
        let entry ← peekAt key
        Prog.gets fun jsm => Reply.job (jsm.jobOf entry) : JSMProg Reply) jsm).Ends
      (fun _ => Along kinds op start) (fun _ => Along kinds op start) True :=
  ((keeps_peekAt key).bind fun _ => Prog.keeps_gets _) jsm along

/-- Every operation is a chain of moves. -/
theorem ends_run (along : Along kinds op start jsm) (readyExact : kinds .ready)
    (delayedExact : kinds .delayed) (touchesOwn : kinds.held .reserved → TouchesOwn jsm op)
    (deletesNoBuried : kinds .buried → DeletesNoBuried jsm op) :
    (op.run jsm).Ends (fun _ => Along kinds op start) (fun _ => Along kinds op start) True := by
  cases op with
  | put nowSeconds priority delay ttr bodySize body tubeName =>
      refine Prog.ends_map ((ends_put along.jobs nowSeconds priority delay ttr bodySize body
        tubeName).mono ?_ ?_ fun _ => trivial)
      · rintro id after ⟨rfl, absent, done, records⟩
        refine ⟨done.inv, along.moves.tail (.makes ?_ records done.kept ⟨kinds, along.jobs⟩)⟩
        rw [absent]
        exact .entered rfl
      · rintro _ after ⟨_, done, records⟩
        exact along.rests done.inv (funext records) done.kept
  | delete jobID clientID =>
      refine Prog.ends_map ((ends_delete along.jobs clientID (kinds.held_of_exact _ readyExact)
        (kinds.held_of_exact _ delayedExact) deletesNoBuried).mono ?_ ?_ fun _ => trivial)
      · rintro _ after ⟨deleted, _⟩
        exact along.deletes deleted
      · rintro _ after (⟨rfl, _⟩ | ⟨_, deleted⟩)
        · exact along
        · exact along.deletes deleted
  | getJob jobID =>
      refine Prog.ends_map ?_
      rw [getJob_apply]
      split <;> exact along
  | peekDelayedJob tubeName => exact along.ends_peek
  | peekReadyJob tubeName => exact along.ends_peek
  | peekBuriedJob tubeName => exact along.ends_peek
  | release jobID clientID =>
      refine Prog.ends_map ((ends_fromReservedToReady along.jobs clientID 0 false).mono ?_
        (fun _ _ failed => along.of_sameViews failed.1) fun _ => trivial)
      rintro _ after ⟨record, owned, moved⟩
      exact along.makes moved (.released rfl owned)
  | releaseWith nowSeconds jobID clientID pri delay =>
      refine Prog.ends_map ?_
      unfold releaseWith
      split
      next isNow =>
        refine (ends_fromReservedToReady along.jobs clientID pri true).mono ?_
          (fun _ _ failed => along.of_sameViews failed.1) fun _ => trivial
        rintro _ after ⟨record, owned, moved⟩
        exact along.makes moved (.releasedNow rfl isNow owned)
      next isLater =>
        refine (ends_fromReservedToDelayed along.jobs nowSeconds clientID pri delay).mono ?_
          (fun _ _ failed => along.of_sameViews failed.1) fun _ => trivial
        rintro _ after ⟨record, middle, owned, moved, rfl⟩
        exact (along.makes moved (.releasedLater rfl isLater owned)).lowerNextDelayTickAt _
  | touch nowSeconds jobID clientID =>
      refine Prog.ends_map (Prog.ends_bind ((ends_touchMove along.jobs nowSeconds clientID
        touchesOwn).mono (fun _ _ touches => touches)
        (fun _ _ failed => along.of_sameViews failed.1) fun _ => trivial) ?_)
      rintro _ middle ⟨record, owned, moved⟩
      exact ((keeps_findClient clientID).bind clientClosed.keeps_updateClientTickAt) middle
        (along.makes moved (.touched rfl owned))
  | bury nowSeconds jobID priority clientID =>
      refine Prog.ends_map ((ends_fromReservedToBuried along.jobs nowSeconds priority
        clientID).mono ?_ (fun _ _ failed => along.of_sameViews failed.1) fun _ => trivial)
      rintro _ after ⟨record, owned, moved⟩
      exact along.makes moved (.buried rfl owned)
  | kick jobID =>
      refine Prog.ends_map ((ends_fromBuriedToReady along.jobs).mono ?_
        (fun _ _ failed => along.of_sameViews failed.1) fun _ => trivial)
      rintro _ after ⟨record, isBuried, moved⟩
      exact along.makes moved (.kicked rfl isBuried)
  | kickN tubeName n => exact Prog.ends_map (ends_kickLoop _ 0 along)
  | appendReservation clientId reqID watchedTubes nowSecs resvDeadlineAt =>
      exact Prog.ends_map ((matchRules rfl).ends_appendReservation along
        (clientClosed.ends_enters along clientId reqID watchedTubes resvDeadlineAt))
  | tick nowSecs walk =>
      exact Prog.ends_map ((tickRules delayedExact nowSecs walk).keeps_tick walk jsm along)

end Along

/-! ## Runs -/

section Runs

variable {kinds : Kinds}

/-- What every run keeps. -/
def Kinds.anyRun : Kinds where
  exact kind := kind = .ready ∨ kind = .delayed
  held kind := kind ≠ .reserved
  held_of_exact := by simp
  held_buried := by simp

/-- What the runs keep in which nobody touches a job of somebody else. -/
def Kinds.ownTouches : Kinds where
  exact kind := kind ≠ .buried
  held _ := True
  held_of_exact := by simp
  held_buried := trivial

/-- What the runs keep in which no buried job is deleted. -/
def Kinds.buriedKept : Kinds where
  exact kind := kind ≠ .reserved
  held kind := kind ≠ .reserved
  held_of_exact := by simp
  held_buried := by simp

theorem ends_run_jobsOk {jsm : JSM} (inv : JobsOk kinds jsm) (readyExact : kinds .ready)
    (delayedExact : kinds .delayed) (op : Op)
    (touchesOwn : kinds.held .reserved → TouchesOwn jsm op)
    (deletesNoBuried : kinds .buried → DeletesNoBuried jsm op) :
    (op.run jsm).Ends (fun _ => JobsOk kinds) (fun _ => JobsOk kinds) True := by
  exact ((Along.refl inv op).ends_run readyExact delayedExact touchesOwn deletesNoBuried).mono
    (fun _ _ along => along.jobs) (fun _ _ along => along.jobs) fun _ => trivial

theorem jobsOk_of_reachable {admits : JSM → Op → Prop} {jsm : JSM}
    (reachable : Reachable admits jsm) (readyExact : kinds .ready) (delayedExact : kinds .delayed)
    (touchesOwn : kinds.held .reserved → ∀ jsm op, admits jsm op → TouchesOwn jsm op)
    (deletesNoBuried : kinds .buried → ∀ jsm op, admits jsm op → DeletesNoBuried jsm op) :
    JobsOk kinds jsm := by
  refine reachable.invariant (jobsOk_newJSM kinds) fun before op answer after inv admitted steps =>
    steps.keeps (ends_run_jobsOk inv readyExact delayedExact op ?_ ?_)
  · exact fun isExact => touchesOwn isExact before op admitted
  · exact fun isExact => deletesNoBuried isExact before op admitted

theorem along_of_steps {op : Op} {answer : Answer} {before after : JSM}
    (jobs : JobsOk .anyRun before) (steps : op.Steps before answer after) :
    Along .anyRun op before after := by
  exact steps.keeps ((Along.refl jobs op).ends_run (Or.inl rfl) (Or.inr rfl)
    (fun isHeld => absurd rfl isHeld) fun isExact => by simp [Kinds.anyRun] at isExact)

theorem jobsOk_anyRun_of_reachable {admits : JSM → Op → Prop} {jsm : JSM}
    (reachable : Reachable admits jsm) : JobsOk .anyRun jsm :=
  reachable.invariant (jobsOk_newJSM .anyRun) fun _ _ _ _ jobs _ steps =>
    (along_of_steps jobs steps).jobs

theorem jobsKept_of_reachable {admits : JSM → Op → Prop} {jsm : JSM}
    (reachable : Reachable admits jsm) : JobsKept newJSM jsm := by
  let invariant (state : JSM) : Prop := JobsOk .anyRun state ∧ JobsKept newJSM state
  have kept : invariant jsm := by
    refine reachable.invariant ⟨jobsOk_newJSM .anyRun, .refl newJSM⟩ ?_
    rintro before op answer after ⟨jobs, kept⟩ _ steps
    have along := along_of_steps jobs steps
    exact ⟨along.jobs, kept.trans (JobsKept.of_moves along.moves)⟩
  exact kept.2

theorem buriedInOrder_of_reachable {admits : JSM → Op → Prop} {jsm : JSM}
    (reachable : Reachable admits jsm) : BuriedInOrder jsm :=
  (jobsKept_of_reachable reachable).buried (.of_empty fun key => by cases key <;> rfl)

theorem numbered_of_reachable {admits : JSM → Op → Prop} {jsm : JSM}
    (reachable : Reachable admits jsm) : Numbered jsm :=
  (jobsKept_of_reachable reachable).numbered
    ⟨fun _ bound => absurd bound (Nat.not_lt_zero _), rfl,
      fun _ bound => absurd bound (Nat.not_lt_zero _)⟩

end Runs

end Coolbeans
