import Coolbeans.BoardView
import Coolbeans.FailedOperations

/-!
# The commands follow the rules of the board

Each command of the state machine answers as the board's rule for it says, with the same error
if it fails, and leaves a state that shows the board which the rule asks for.
-/

namespace Coolbeans

open FiniteMap PositionHeap SortedListing StatefulProgram

/-- How well the heaps have to be kept for the rules of the board. -/
structure Kinds.Strong (kinds : Kinds) : Prop where
  ready : kinds .ready
  delayed : kinds .delayed
  reserved : kinds .reserved

theorem Kinds.Strong.reservedHeld {kinds : Kinds} (strong : kinds.Strong) :
    kinds.held .reserved :=
  kinds.held_of_exact _ strong.reserved

/-- A run answers as the board does, and leaves a state that shows the board's own next one. -/
def Shows {α : Type} (outcome : Outcome JSM Err Panic α) (reply : α → Reply)
    (result : Answer × Board) (panics : Prop) : Prop :=
  outcome.Ends (fun value after => result = (.ok (reply value).plain, after.board))
    (fun error after => result = (.error error, after.board)) panics

/-! ## Commands on one job -/

section OnJob

variable {kinds : Kinds} {jsm : JSM} {id : JobID} {program : JSMProg Unit}

theorem Board.onJob_of_none {board : Board} {choose : Job → Except Err (Option Job)}
    (absent : board.jobs id = none) :
    board.onJob id choose = (.error .entryMissing, board) := by
  simp only [Board.onJob, absent]

theorem Board.onJob_of_error {board : Board} {choose : Job → Except Err (Option Job)} {job : Job}
    {error : Err} (present : board.jobs id = some job) (refuses : choose job = .error error) :
    board.onJob id choose = (.error error, board) := by
  simp only [Board.onJob, present, refuses]

theorem Board.onJob_of_ok {board : Board} {choose : Job → Except Err (Option Job)} {job : Job}
    {next : Option Job} (present : board.jobs id = some job) (accepts : choose job = .ok next) :
    board.onJob id choose = (.ok .done, board.setJob id next) := by
  simp only [Board.onJob, present, accepts]

/-- A program does what the board does if it asks the same of the job that is named. -/
theorem ends_onJob {choose : Job → Except Err (Option Job)}
    (missing : jsm.recordOf id = none → program jsm = .err .entryMissing jsm)
    (refused : ∀ record error, jsm.recordOf id = some record →
      choose record.plain = .error error → program jsm = .err error jsm)
    (accepted : ∀ record next, jsm.recordOf id = some record → choose record.plain = .ok next →
      (program jsm).Ends (fun _ after => after.board = jsm.board.setJob id next)
        (fun _ _ => False) False) :
    Shows (program jsm) (fun _ => .done) (jsm.board.onJob id choose) False := by
  cases recorded : jsm.recordOf id with
  | none =>
      have absent : jsm.board.jobs id = none := by simp [JSM.board, recorded]
      rw [missing recorded]
      exact Board.onJob_of_none absent
  | some record =>
      have present : jsm.board.jobs id = some record.plain := by simp [JSM.board, recorded]
      cases decision : choose record.plain with
      | error error =>
          rw [refused record error recorded decision]
          exact Board.onJob_of_error present decision
      | ok next =>
          apply (accepted record next recorded decision).mono _ (fun _ _ => False.elim) False.elim
          intro _ after shows
          rw [Board.onJob_of_ok present decision, shows]
          rfl

/-! ### Transitions -/

variable {guard : IndexEntry → Job → JSMProg Unit} {remove : Nat → JSMProg Nat}
  {change : Job → Job} {enqueue : Nat → JSMProg Nat} {error : Err} {clientID : ClientID}

theorem moveJob_of_missing (missing : jsm.recordOf id = none) :
    moveJob id guard remove change enqueue jsm = .err .entryMissing jsm := by
  have absent : jsm.jobs.lookup id = none := by simpa [JSM.recordOf] using missing
  rw [moveJob, Prog.bind_apply, JobIndex.get, absent]
  rfl

/-- A guard that fails in every way it is asked ends the transition. -/
theorem moveJob_of_refused {record : Job} (recorded : jsm.recordOf id = some record)
    (refuses : ∀ found, guard found record jsm = .err error jsm) :
    moveJob id guard remove change enqueue jsm = .err error jsm := by
  obtain ⟨found, present, rfl⟩ := Option.map_eq_some_iff.mp recorded
  rw [moveJob, Prog.bind_apply, JobIndex.get, present, Outcome.ok_andThen, readJob_bind,
    Prog.bind_apply, refuses found]
  rfl

theorem reservedGuard_of_state {record : Job} (unreserved : record.state ≠ .reserved)
    (found : IndexEntry) : reservedGuard error clientID found record jsm = .err error jsm := by
  rw [reservedGuard, Prog.bind_apply, Prog.require_apply, if_neg unreserved]
  rfl

theorem reservedGuard_of_owner {record : Job} (isReserved : record.state = .reserved)
    (stranger : clientID ≠ [] ∧ record.reservedBy ≠ clientID) (found : IndexEntry) :
    reservedGuard error clientID found record jsm = .err .unauthorizedOperation jsm := by
  rw [reservedGuard, Prog.bind_apply, Prog.require_apply, if_pos isReserved, Outcome.ok_andThen,
    checkOwner, Prog.require_apply, if_neg]
  exact fun allowed => allowed ⟨List.length_pos_iff.mpr stranger.1, stranger.2⟩

/-- A program that begins with a transition of a reserved job fails as the transition does. -/
theorem ends_changedBy {given : Job → Job}
    (fails : ∀ error', moveJob id (reservedGuard error clientID) removeReservedJob change enqueue
      jsm = .err error' jsm → program jsm = .err error' jsm)
    (moves : ∀ record, jsm.recordOf id = some record → record.OwnedBy clientID →
      (program jsm).Ends
        (fun _ after => after.board = jsm.board.setJob id (some (given record.plain)))
        (fun _ _ => False) False) :
    Shows (program jsm) (fun _ => .done)
      (jsm.board.onJob id (Job.changedBy error clientID given)) False := by
  apply ends_onJob
  · exact fun missing => fails _ (moveJob_of_missing missing)
  · intro record error' recorded refuses
    apply fails
    apply moveJob_of_refused recorded
    unfold Job.changedBy at refuses
    split at refuses
    next unreserved =>
      cases refuses
      exact reservedGuard_of_state unreserved
    next isReserved =>
      split at refuses
      next stranger =>
        cases refuses
        exact reservedGuard_of_owner (not_not.mp isReserved) stranger
      next => cases refuses
  · intro record next recorded accepts
    unfold Job.changedBy at accepts
    split at accepts
    next => cases accepts
    next isReserved =>
      split at accepts
      next => cases accepts
      next owner =>
        cases accepts
        apply moves record recorded
        refine ⟨not_not.mp isReserved, ?_⟩
        by_cases nobody : clientID = []
        · exact Or.inl nobody
        · exact Or.inr (not_not.mp fun other => owner ⟨nobody, other⟩)

/-- What a transition of a reserved job shows, once its record is known. -/
theorem ends_board_of_moved {given : Job → Job} {onErr : Err → JSM → Prop} {record : Job}
    (strong : kinds.Strong) (recorded : jsm.recordOf id = some record)
    (owned : record.OwnedBy clientID)
    (ends : (program jsm).Ends
      (fun _ after => ∃ record, record.OwnedBy clientID ∧
        Moved kinds id record (change record) jsm after) onErr (¬ kinds.held .reserved))
    (never : ∀ error' after, onErr error' after → ¬ record.OwnedBy clientID)
    (plain : record.state ≠ .buried → (change record).plain = given record.plain) :
    (program jsm).Ends
      (fun _ after => after.board = jsm.board.setJob id (some (given record.plain)))
      (fun _ _ => False) False := by
  apply ends.mono
  · rintro _ after ⟨other, _, moved⟩
    have same : other = record := Option.some.inj (moved.was.symm.trans recorded)
    rw [moved.board, same, plain (by simp [owned.1])]
  · exact fun error' after failed => never error' after failed owned
  · exact fun unheld => unheld strong.reservedHeld

theorem ends_release_board (strong : kinds.Strong) (inv : JobsOk kinds jsm) (pri : UInt32)
    (updatePri : Bool) :
    Shows (fromReservedToReady id clientID pri updatePri jsm) (fun _ => .done)
      (jsm.board.onJob id (Job.changedBy .invalidJobTransition clientID
        (Job.released pri updatePri))) False := by
  apply ends_changedBy fun _ fails => fails
  intro record recorded owned
  apply ends_board_of_moved strong recorded owned
    (ends_fromReservedToReady inv clientID pri updatePri)
  · exact fun _ _ failed => failed.2 strong.reservedHeld record recorded
  · exact fun unburied => Job.plain_released unburied pri updatePri

theorem ends_bury_board (strong : kinds.Strong) (inv : JobsOk kinds jsm) (nowSeconds : Int64)
    (priority : UInt32) :
    Shows (bury nowSeconds id priority clientID jsm) (fun _ => .done)
      (jsm.board.onJob id (Job.changedBy .invalidJobTransition clientID
        (Job.buriedWith nowSeconds priority))) False := by
  apply ends_changedBy fun _ fails => fails
  intro record recorded owned
  apply ends_board_of_moved strong recorded owned
    (ends_fromReservedToBuried inv nowSeconds priority clientID)
  · exact fun _ _ failed => failed.2 strong.reservedHeld record recorded
  · exact fun unburied => Job.plain_buriedWith unburied nowSeconds priority

theorem JSM.board_lowerNextDelayTickAt (jsm : JSM) (readyAt : Int64) :
    (jsm.lowerNextDelayTickAt readyAt).board = jsm.board := by
  unfold JSM.lowerNextDelayTickAt
  split <;> rfl

theorem ends_releaseWith_board (strong : kinds.Strong) (inv : JobsOk kinds jsm)
    (nowSeconds : Int64) (pri : UInt32) (delay : Int64) :
    Shows (releaseWith nowSeconds id clientID pri delay jsm) (fun _ => .done)
      (jsm.board.onJob id (Job.changedBy .invalidJobTransition clientID
        (Board.releaseChange nowSeconds pri delay))) False := by
  unfold releaseWith Board.releaseChange
  split
  next => exact ends_release_board strong inv pri true
  next =>
    apply ends_changedBy
    · intro error fails
      rw [fromReservedToDelayed, Prog.bind_apply, fails]
      rfl
    · intro record recorded owned
      apply (ends_fromReservedToDelayed inv nowSeconds clientID pri delay).mono
      · rintro _ after ⟨other, middle, _, moved, rfl⟩
        have same : other = record := Option.some.inj (moved.was.symm.trans recorded)
        rw [JSM.board_lowerNextDelayTickAt, moved.board, same,
          Job.plain_releasedWithDelay (by simp [owned.1])]
      · exact fun _ _ failed => failed.2 strong.reservedHeld record recorded owned
      · exact fun unheld => unheld strong.reservedHeld

/-- A touch changes the expiry of the job; the clock that its client gets is not shown. -/
theorem ends_touch_board (strong : kinds.Strong) (ok : ContainersOk kinds jsm)
    {range : Int64 → Prop} (owners : OwnersOk range jsm) (nowSeconds : Int64)
    (named : TouchesOwn jsm (.touch nowSeconds id clientID)) :
    Shows (touch nowSeconds id clientID jsm) (fun _ => .done)
      (jsm.board.onJob id (Job.changedBy .invalidOperation clientID
        (Job.updateReservation nowSeconds))) False := by
  apply ends_changedBy
  · intro error fails
    rw [touch, Prog.bind_apply, fails]
    rfl
  intro record recorded owned
  apply Prog.ends_bind ((ends_touchMove ok.jobs nowSeconds clientID fun _ => named).mono
    (fun _ _ moved => moved) (fun _ _ failed => failed.2 strong.reservedHeld record recorded owned)
    fun unheld => unheld strong.reservedHeld)
  rintro _ middle ⟨other, _, moved⟩
  have same : other = record := Option.some.inj (moved.was.symm.trans recorded)
  have shows : middle.board =
      jsm.board.setJob id (some (record.plain.updateReservation nowSeconds)) := by
    rw [moved.board, same]
    rfl
  obtain ⟨clients, _⟩ := moved.frame.fields
  have clientsMiddle := ok.clients.of_clientView moved.frame.clients
  rcases @findClient_apply middle clientID with
    ⟨cli, registered, _, finds⟩ | ⟨nobody, _, _⟩
  · rw [Prog.bind_apply, finds, Outcome.ok_andThen]
    have resting : ¬ middle.tickAtFor cli < maxTime →
        (middle.clientAt cli).isWaitingForResv = false := by
      intro never
      rw [← Bool.not_eq_true]
      exact fun waiting => never (JSM.tickAtFor_lt_maxTime waiting
        (clientsMiddle.deadline cli registered waiting))
    apply (ends_updateClientTickAt clientsMiddle.inv registered fun never => ?_).mono _
      (fun _ _ => False.elim) False.elim
    · rintro _ after ⟨_, rescheduled⟩
      rw [rescheduled.board resting, shows]
    · simp [JSM.wanted, resting never]
  · obtain ⟨_, cli, registered, isOwner⟩ := owners id record recorded owned.1
    exact absurd (isOwner.trans (named record recorded owned)) (nobody cli (clients ▸ registered))

theorem ends_kick_board (inv : JobsOk kinds jsm) :
    Shows (kick id jsm) (fun _ => .done) (jsm.board.onJob id Job.kickedUp) False := by
  apply ends_onJob
  · exact moveJob_of_missing
  · intro record error recorded refuses
    unfold Job.kickedUp at refuses
    split at refuses
    next => cases refuses
    next unburied =>
      cases refuses
      apply moveJob_of_refused recorded
      intro found
      exact if_neg unburied
  · intro record next recorded accepts
    unfold Job.kickedUp at accepts
    split at accepts
    next isBuried =>
      cases accepts
      obtain ⟨after, returns, moved⟩ := kick_returns inv recorded isBuried
      rw [returns]
      exact moved.board.trans (by rw [Job.plain_kicked])
    next => cases accepts

theorem ends_delete_board (strong : kinds.Strong) (inv : JobsOk kinds jsm) (clientID : ClientID)
    (notBuried : kinds .buried → ∀ record, jsm.recordOf id = some record →
      record.state ≠ .buried) :
    Shows (delete id clientID jsm) (fun _ => .done)
      (jsm.board.onJob id (Job.deletedBy clientID)) False := by
  apply ends_onJob
  · intro missing
    have absent : jsm.jobs.lookup id = none := by simpa [JSM.recordOf] using missing
    rw [delete, Prog.bind_apply, JobIndex.get, absent]
    rfl
  · intro record error recorded refuses
    obtain ⟨found, present, rfl⟩ := Option.map_eq_some_iff.mp recorded
    unfold Job.deletedBy at refuses
    split at refuses
    next stranger =>
      cases refuses
      rw [delete, Prog.bind_apply, JobIndex.get, present, Outcome.ok_andThen, readJob_bind,
        Prog.bind_apply, Prog.require_apply, if_neg fun allowed => allowed stranger]
      rfl
    next => cases refuses
  · intro record next recorded accepts
    unfold Job.deletedBy at accepts
    split at accepts
    next => cases accepts
    next allowed =>
      cases accepts
      apply (ends_delete inv clientID (kinds.held_of_exact _ strong.ready)
        (kinds.held_of_exact _ strong.delayed) notBuried).mono
      · exact fun _ after deleted => deleted.1.board
      · rintro _ after (⟨_, refused⟩ | ⟨unheld, _⟩)
        · exact allowed (refused record recorded)
        · exact unheld strong.reservedHeld
      · exact fun unheld => unheld strong.reservedHeld

end OnJob

/-! ## Put, peeks and kicks -/

section Commands

variable {kinds : Kinds} {jsm : JSM}

/-- The only thing that can be wrong with a new job is its id. -/
theorem ends_fromInitialTo_error {state : JobState} {enqueue : Nat → JSMProg Nat}
    (enqueues : ∀ job, Prog.NeverFails (enqueue job)) {job : Nat}
    (isInitial : (jsm.jobAt job).state = .initial) :
    (fromInitialTo state enqueue job jsm).Ends (fun _ _ => True)
      (fun error _ => error = .entryExists) True := by
  unfold fromInitialTo
  rw [readJob_bind, Prog.bind_apply, Prog.require_apply, if_pos isInitial, Outcome.ok_andThen,
    Prog.bind_apply, JobIndex.add]
  cases jsm.jobs.lookup (jsm.jobAt job).id with
  | some found => rfl
  | none =>
      have rest : Prog.NeverFails (do
          updateJob job (Job.updateState state)
          let entry ← enqueue job
          JobIndex.setEntry (jsm.jobAt job).id job entry : JSMProg Unit) :=
        (Prog.neverFails_modify _).bind fun _ =>
          (enqueues job).bind fun _ => Prog.neverFails_modify _
      exact (rest _).mono (fun _ _ _ => trivial) (fun _ _ => False.elim) fun _ => trivial

theorem ends_put_error (nowSeconds : Int64) (priority : UInt32) (delay ttr bodySize : Int64)
    (body : Option Bytes) (tubeName : TubeName) :
    (put nowSeconds priority delay ttr bodySize body tubeName jsm).Ends (fun _ _ => True)
      (fun error _ => error = .entryExists) True := by
  have isInitial : ((jsm.withNewJob
      (fun id => .initial id nowSeconds priority delay ttr bodySize body tubeName)
      (jsm.delayTickAfterPut nowSeconds delay)).jobAt jsm.nextJob).state = .initial := by
    simp [JSM.withNewJob, JSM.allocJob, Job.initial]
  rw [put_apply]
  split
  · exact Prog.ends_bind
      (ends_fromInitialTo_error (neverFails_enqueueTubeJob .delayed) isInitial)
      fun _ _ _ => trivial
  · exact Prog.ends_bind
      (ends_fromInitialTo_error (neverFails_enqueueTubeJob .ready) isInitial)
      fun _ _ _ => trivial

theorem PutDone.board {nextDelayTickAt : Int64} {after : JSM} {id : JobID} {next : Option Job}
    (done : PutDone kinds nextDelayTickAt jsm after)
    (records : ∀ other, after.recordOf other = if other = id then next else jsm.recordOf other) :
    after.board =
      Board.setJob { jsm.board with lastID := jsm.maxJobID + 1 } id (next.map Job.plain) := by
  obtain ⟨requests, lines⟩ := JSM.board_of_clientView done.clients
  ext1
  · exact JSM.board_jobs_of_records records
  · exact done.maxJobID
  · exact requests
  · exact lines

theorem ends_put_board (inv : JobsOk kinds jsm) (nowSeconds : Int64) (priority : UInt32)
    (delay ttr bodySize : Int64) (body : Option Bytes) (tubeName : TubeName) :
    Shows (put nowSeconds priority delay ttr bodySize body tubeName jsm) .jobID
      (jsm.board.put nowSeconds priority delay ttr bodySize body tubeName) False := by
  apply ((ends_put inv nowSeconds priority delay ttr bodySize body tubeName).and
    (ends_put_error nowSeconds priority delay ttr bodySize body tubeName)).mono
  · rintro id after ⟨⟨rfl, absent, done, records⟩, _⟩
    have shown : jsm.board.jobs (jsm.board.lastID + 1) = none := by
      change (jsm.recordOf (jsm.maxJobID + 1)).map Job.plain = none
      rw [absent, Option.map_none]
    simp only [Board.put, shown]
    rw [done.board records]
    simp [JSM.board, Job.plain, Job.initial, Reply.plain]
  · rintro error after ⟨⟨taken, done, records⟩, rfl⟩
    obtain ⟨record, recorded⟩ := Option.ne_none_iff_exists'.mp taken
    have shown : jsm.board.jobs (jsm.board.lastID + 1) = some record.plain := by
      change (jsm.recordOf (jsm.maxJobID + 1)).map Job.plain = some record.plain
      rw [recorded, Option.map_some]
    have unchanged : ∀ other, after.recordOf other =
        if other = jsm.maxJobID + 1 then some record else jsm.recordOf other := by
      intro other
      rw [records]
      split
      next same => rw [same, recorded]
      next => rfl
    simp only [Board.put, shown]
    rw [done.board unchanged]
    simp only [Board.setJob, Option.map_some]
    rw [← shown]
    congr 2
    exact (Function.update_eq_self (jsm.maxJobID + 1) jsm.board.jobs).symm
  · exact fun panics => panics.1

theorem ends_getJob_board (id : JobID) :
    Shows (getJob id jsm) .job (jsm.board.getJob id) False := by
  rw [getJob_apply]
  cases recorded : jsm.recordOf id with
  | none =>
      have absent : jsm.board.jobs id = none := by simp [JSM.board, recorded]
      change jsm.board.getJob id = (.error .entryMissing, jsm.board)
      simp only [Board.getJob, absent]
  | some record =>
      have present : jsm.board.jobs id = some record.plain := by simp [JSM.board, recorded]
      change jsm.board.getJob id = (.ok (.job record.plain), jsm.board)
      simp only [Board.getJob, present]

theorem ends_peek_board (inv : JobsOk kinds jsm) (key : HeapKey) (isKind : kinds key.kind) :
    Shows ((do
      let entry ← peekAt key
      Prog.gets fun jsm => Reply.job (jsm.jobOf entry) : JSMProg Reply) jsm) id
      (jsm.board.peek key) False := by
  have first := inv.board_first? key isKind
  rw [Prog.bind_apply, peekAt]
  cases head : (jsm.heapAt key).head? with
  | none =>
      rw [head, Option.map_none] at first
      change jsm.board.peek key = (.error .entryMissing, jsm.board)
      simp only [Board.peek, first]
  | some entry =>
      rw [head, Option.map_some] at first
      change jsm.board.peek key = (.ok (.job (jsm.jobOf entry).plain), jsm.board)
      simp only [Board.peek, first]

/-- The loop of `KickN` takes the buried jobs in the order of the board. -/
theorem ends_kickLoop_board (buriedExact : kinds .buried) (inv : JobsOk kinds jsm)
    (tubeName : TubeName) (rounds : Nat) (count : Int64) :
    Shows (kickLoop tubeName rounds count jsm) .count
      (Board.kickFirst tubeName rounds count jsm.board) False := by
  induction rounds generalizing count jsm with
  | zero => rfl
  | succ rounds induction =>
      have first := inv.board_first? (.buried tubeName) buriedExact
      cases head : (jsm.heapAt (.buried tubeName)).head? with
      | none =>
          rw [head, Option.map_none] at first
          rw [kickLoop_of_none head, Board.kickFirst, first]
          rfl
      | some entry =>
          rw [head, Option.map_some] at first
          obtain ⟨recorded, home⟩ := inv.recordOf_jobOf (.buried tubeName) buriedExact
            (List.mem_of_head? head)
          obtain ⟨after, returns, moved⟩ := kick_returns inv recorded
            ((Job.home_eq_buried_iff _ _).mp home).1
          rw [kickLoop_of_some head, Prog.bind_apply, returns, Outcome.ok_andThen]
          have rest := induction moved.inv (count + 1)
          rw [moved.board, Job.plain_kicked] at rest
          rw [Board.kickFirst, first]
          exact rest

end Commands

end Coolbeans
