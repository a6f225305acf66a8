import Coolbeans.BoardReservations
import Coolbeans.Overdue
import Coolbeans.ReplicaAgreement

/-!
# A tick follows the rules of the board

A tick of the state machine looks at the delayed jobs only when its timer has passed, and at the
clients only whose clocks have passed.  Since the timers are early, it misses nothing: its stages
show on the board as the stages of the board's own tick, which looks at everything.
-/

namespace Coolbeans

open FiniteMap PositionHeap SortedListing StatefulProgram

/-! ## The delay stage -/

section Delay

variable {kinds : Kinds} {now : Int64} {jsm woken : JSM}

/-- While the timer has not passed, no job is due. -/
theorem DelayTimerOk.wake_eq (timer : DelayTimerOk jsm) (early : ¬ jsm.nextDelayTickAt < now)
    {id : JobID} {record : Job} (recorded : jsm.recordOf id = some record) :
    record.wake now = record := by
  apply if_neg
  rintro ⟨isDelayed, due⟩
  exact early (Int64.lt_of_le_of_lt (timer id record recorded isDelayed) due)

theorem DelayDone.board (timer : DelayTimerOk jsm) (done : DelayDone kinds now jsm woken) :
    woken.board = jsm.board.wake now := by
  obtain ⟨requests, lines⟩ := JSM.board_of_clientView done.clients
  ext1
  · funext id
    simp only [JSM.board, Board.wake, done.records]
    cases recorded : jsm.recordOf id with
    | none => rfl
    | some record =>
        simp only [Option.map_some, Option.some.injEq]
        rw [← Job.plain_wake]
        split
        next => rfl
        next early => rw [timer.wake_eq early recorded]
  · exact done.maxJobID
  · exact requests
  · exact lines

end Delay

/-! ## The matching stage -/

section Matching

variable {kinds : Kinds} {now : Int64} {woken served : JSM} {matched : List (CliPtr × Job)}

/-- A match as the board shows it. -/
def shownPair (pair : CliPtr × Job) : ClientID × Job :=
  (pair.1.cliID, pair.2.plain)

theorem map_fst_shownPair (pairs : List (CliPtr × Job)) :
    (pairs.map shownPair).map Prod.fst = (pairs.map Prod.fst).map (·.cliID) := by
  rw [List.map_map, List.map_map]
  rfl

theorem JobsOk.board_matching (jobs : JobsOk kinds woken) (clients : ClientsOk woken)
    (readyExact : kinds .ready) (order : List TubeName) :
    woken.board.matching order =
      (WaitingLine.serve woken.readyOrder order
        fun tubeName => (woken.waitingAt tubeName).entries).map shownPair := by
  have stock : (fun tubeName => woken.board.inOrder (.ready tubeName)) =
      fun tubeName => (woken.readyOrder tubeName).map Job.plain := by
    funext tubeName
    exact jobs.board_inOrder_ready readyExact tubeName
  have distinct : ∀ first second, (∃ tubeName, first ∈ (woken.waitingAt tubeName).entries) →
      (∃ tubeName, second ∈ (woken.waitingAt tubeName).entries) →
      first.cliID = second.cliID → first = second := by
    rintro first second ⟨_, firstIn⟩ ⟨_, secondIn⟩ same
    exact woken.clients.eq_of_cliID_eq (clients.waiting_of_queued firstIn).1
      (clients.waiting_of_queued secondIn).1 same
  rw [Board.matching, stock, WaitingLine.serve_map]
  simp only [JSM.board]
  rw [WaitingLine.serve_rename CliPtr.cliID order _ distinct, List.map_map]
  rfl

section Served

variable (handed : ServedAll kinds now matched woken served)
include handed

theorem ServedAll.mem_names {cli : CliPtr} (registered : cli ∈ woken.clients.entries) :
    cli.cliID ∈ (matched.map shownPair).map Prod.fst ↔ cli ∈ matched.map Prod.fst := by
  rw [map_fst_shownPair, List.mem_map]
  constructor
  · rintro ⟨other, member, same⟩
    obtain ⟨pair, inside, rfl⟩ := List.mem_map.mp member
    have isCli := woken.clients.eq_of_cliID_eq (handed.wasWaiting pair inside).1 registered same
    exact isCli ▸ member
  · exact fun member => ⟨cli, member, rfl⟩

theorem ServedAll.board_jobs :
    served.board.jobs = (woken.board.handOut now (matched.map shownPair)).jobs := by
  funext id
  simp only [JSM.board, Board.handOut, List.find?_map]
  cases found : matched.find? ((fun pair : ClientID × Job => decide (pair.2.id = id)) ∘
      shownPair) with
  | none =>
      have unserved : id ∉ matched.map fun pair => pair.2.id := by
        intro member
        obtain ⟨pair, inside, isId⟩ := List.mem_map.mp member
        have missed := List.find?_eq_none.mp found pair inside
        exact missed (decide_eq_true isId)
      rw [handed.unserved id unserved]
      rfl
  | some pair =>
      have inside := List.mem_of_find?_eq_some found
      have isId : pair.2.id = id := by
        have hit := List.find?_some found
        exact of_decide_eq_true hit
      have unburied : pair.2.state ≠ .buried := by simp [(handed.wasReady pair inside).2]
      rw [← isId, handed.served pair inside, Option.map_some, Job.plain_reservedFor unburied]
      rfl

theorem ServedAll.board_requests :
    served.board.requests = (woken.board.handOut now (matched.map shownPair)).requests := by
  apply JSM.requestOf_settle
  · exact fun cli member => handed.registered_before member
  · intro cli registered unserved
    rw [decide_eq_true_eq, handed.mem_names registered] at unserved
    rw [handed.entries, List.mem_filter]
    exact ⟨registered, by simp [unserved]⟩
  · intro cli registered
    simp only [decide_eq_true_eq, handed.mem_names registered]
    split
    next isServed =>
      exact (ClientResvEntry.openRequest_eq_none_iff _).mpr (handed.not_waiting isServed)
    next unserved => exact ClientResvEntry.openRequest_of_content (handed.others cli unserved)

theorem ServedAll.board (clients : ClientsOk woken) :
    served.board = woken.board.handOut now (matched.map shownPair) := by
  ext1
  · exact handed.board_jobs
  · exact handed.maxJobID
  · exact handed.board_requests
  · funext tubeName
    simp only [JSM.board, Board.handOut, Board.settle, handed.queues, List.filter_map]
    congr 1
    apply List.filter_congr
    intro cli queued
    have names := handed.mem_names (clients.waiting_of_queued queued).1
    rw [Function.comp_apply, Bool.eq_iff_iff]
    simp only [decide_eq_true_eq, Bool.not_eq_true', decide_eq_false_iff_not, names]

theorem ServedAll.map_matchedAnswer {jsm : JSM} (clientAt : woken.clientAt = jsm.clientAt) :
    (matched.map shownPair).map woken.board.matchedAnswer = matchedReservations jsm matched := by
  rw [List.map_map, matchedReservations, ← clientAt]
  apply List.map_congr_left
  intro pair inside
  obtain ⟨registered, waiting, _⟩ := handed.wasWaiting pair inside
  have asks : woken.board.requests pair.1.cliID =
      some ⟨(woken.clientAt pair.1).reqID, (woken.clientAt pair.1).resvDeadlineAt⟩ := by
    change woken.requestOf pair.1.cliID = _
    rw [JSM.requestOf_of_mem registered, ClientResvEntry.openRequest, if_pos waiting]
  rw [Function.comp_apply, Board.matchedAnswer, shownPair, asks]
  rfl

end Served

end Matching

/-! ## The client stage -/

section Clients

variable {kinds : Kinds} {now : Int64} {served after : JSM} {processed : List CliPtr}
  {answers : List Reservation}

/-- The client stage of a tick that starts with early clocks and ends with none that is due. -/
structure ClientStage (kinds : Kinds) (now : Int64) (processed : List CliPtr)
    (answers : List Reservation) (served after : JSM) : Prop where
  ticked : ClientsTicked kinds now processed answers served after
  finished : ∀ cli ∈ after.clientHeap, now ≤ (after.clientAt cli).tickAt
  jobs : JobsOk kinds served
  clients : ClientsOk served
  clocks : ClocksOk InnerClock served
  reservedExact : kinds .reserved

theorem ClocksOk.above (clocks : ClocksOk InnerClock served) (id : JobID) (record : Job)
    (recorded : served.recordOf id = some record) (isReserved : record.state = .reserved) :
    Int64.minValue < record.expiresAt :=
  (clocks.owners id record recorded isReserved).1.1

/-- The answer that a client without a match gets is at most one. -/
theorem mem_clientAnswer_iff (cli : CliPtr) (record : ClientResvEntry)
    (firstExpiry : Option Int64) (resv : Reservation) :
    resv ∈ clientAnswer now cli record firstExpiry ↔
      record.isWaitingForResv = true ∧
        (record.resvDeadlineAt < now ∧ resv = unmatched cli.cliID record.reqID .timeout ∨
          ¬ record.resvDeadlineAt < now ∧ ∃ expiresAt, firstExpiry = some expiresAt ∧
            expiresAt - 1 < now ∧ resv = unmatched cli.cliID record.reqID .deadlineSoon) := by
  unfold clientAnswer timeoutAnswer
  by_cases waiting : record.isWaitingForResv = true
  · by_cases late : record.resvDeadlineAt < now
    · simp [waiting, late, emptyReservation_eq]
    · unfold soonAnswer
      cases firstExpiry with
      | none => simp [waiting, late]
      | some expiresAt =>
          by_cases soon : expiresAt - 1 < now <;>
            simp [waiting, late, soon, emptyReservation_eq]
  · unfold soonAnswer
    cases firstExpiry <;> simp [waiting]

/-- The board answers a client by its request and the first of its reservations. -/
theorem Board.answerTo_eq_some_iff (board : Board) (clientID : ClientID) (resv : Reservation) :
    board.answerTo now clientID = some resv ↔
      ∃ request, board.requests clientID = some request ∧
        (request.deadline < now ∧ resv = unmatched clientID request.reqID .timeout ∨
          ¬ request.deadline < now ∧ ∃ expiresAt,
            (board.first? (.reserved clientID)).map (·.expiresAt) = some expiresAt ∧
            expiresAt - 1 < now ∧ resv = unmatched clientID request.reqID .deadlineSoon) := by
  unfold Board.answerTo
  cases board.requests clientID with
  | none => simp
  | some request =>
      by_cases late : request.deadline < now
      · simp [late, eq_comm]
      · cases board.first? (.reserved clientID) with
        | none => simp [late]
        | some job =>
            by_cases soon : job.expiresAt - 1 < now
            · simp [late, soon, Int64.not_lt.mp late, eq_comm]
            · simp [late, soon]

section Stage

variable (stage : ClientStage kinds now processed answers served after)
include stage

/-- A client whose deadline has passed is attended to. -/
theorem ClientStage.mem_processed_of_due {cli : CliPtr}
    (registered : cli ∈ served.clients.entries) (due : served.tickAtFor cli < now) :
    cli ∈ processed := by
  obtain ⟨early, onHeap⟩ := stage.clocks.clock cli registered
  rw [stage.ticked.mem_processed stage.finished]
  constructor
  · exact onHeap (Int64.lt_of_lt_of_le due (le_maxTime now))
  · exact Int64.lt_of_le_of_lt early due

/-- The reservations that end are all that have expired. -/
theorem ClientStage.expire_eq_lapse {id : JobID} {record : Job}
    (recorded : served.recordOf id = some record) :
    record.expire now (processed.map (·.cliID)) = record.lapse now := by
  unfold Job.expire Job.lapse
  by_cases expired : record.state = .reserved ∧ record.expiresAt < now
  · obtain ⟨isReserved, isOver⟩ := expired
    obtain ⟨_, cli, registered, isOwner⟩ := stage.clocks.owners id record recorded isReserved
    have home : record.home = some (.reserved cli.cliID) :=
      (Job.home_eq_reserved_iff _ _).mpr ⟨isReserved, isOwner.symm⟩
    have early := (stage.jobs.tickAtFor_le stage.reservedExact stage.clocks.above recorded home).1
    have isProcessed := stage.mem_processed_of_due registered (Int64.lt_of_le_of_lt early isOver)
    have listed : record.reservedBy ∈ processed.map (·.cliID) :=
      List.mem_map.mpr ⟨cli, isProcessed, isOwner⟩
    rw [if_pos ⟨isReserved, listed, isOver⟩, if_pos ⟨isReserved, isOver⟩]
  · rw [if_neg fun both => expired ⟨both.1, both.2.2⟩, if_neg expired]

theorem ClientStage.board_jobs : after.board.jobs = (served.board.lapse now).jobs := by
  funext id
  simp only [JSM.board, Board.lapse, stage.ticked.records stage.reservedExact]
  cases recorded : served.recordOf id with
  | none => rfl
  | some record =>
      simp only [Option.map_some, Option.some.injEq]
      rw [stage.expire_eq_lapse recorded, Job.plain_lapse]

theorem ClientStage.board_firstExpiry (clientID : ClientID) :
    ((served.board.lapse now).first? (.reserved clientID)).map (·.expiresAt) =
      after.firstExpiry clientID := by
  rw [← stage.ticked.jobs.board_firstExpiry stage.reservedExact]
  unfold Board.first? Board.inOrder
  have same : (served.board.lapse now).Holds = after.board.Holds := by
    unfold Board.Holds
    rw [stage.board_jobs]
  rw [same]

theorem ClientStage.mem_processed_of_answer {cli : CliPtr} {resv : Reservation}
    (registered : cli ∈ served.clients.entries)
    (answer : resv ∈ clientAnswer now cli (served.clientAt cli) (after.firstExpiry cli.cliID)) :
    cli ∈ processed := by
  apply stage.mem_processed_of_due registered
  obtain ⟨waiting, ⟨late, _⟩ | ⟨_, expiresAt, isFirst, soon, _⟩⟩ :=
    (mem_clientAnswer_iff _ _ _ _).mp answer
  · exact Int64.lt_of_le_of_lt (JSM.tickAtFor_le_deadline waiting) late
  · rcases stage.ticked.jobs.firstExpiry_cases stage.reservedExact cli.cliID with
      ⟨isNone, _⟩ | ⟨id, record, recorded, home, isSome, _⟩
    · rw [isNone] at isFirst
      cases isFirst
    · rw [isSome] at isFirst
      cases isFirst
      have wasRecorded : served.recordOf id = some record := by
        rcases stage.ticked.released id with same | ⟨old, _, _, isReleased⟩
        · rwa [same] at recorded
        · rw [isReleased] at recorded
          cases recorded
          simp [Job.home, Job.released] at home
      have early := stage.jobs.tickAtFor_le stage.reservedExact stage.clocks.above wasRecorded home
      exact Int64.lt_of_le_of_lt (early.2 waiting) soon

theorem ClientStage.mem_answers_iff (resv : Reservation) :
    resv ∈ answers ↔ ∃ clientID, (served.board.lapse now).answerTo now clientID = some resv := by
  have given : ∀ cli ∈ served.clients.entries,
      (served.board.lapse now).answerTo now cli.cliID = some resv ↔
        resv ∈ clientAnswer now cli (served.clientAt cli) (after.firstExpiry cli.cliID) := by
    intro cli registered
    have asks : (served.board.lapse now).requests cli.cliID =
        (served.clientAt cli).openRequest := JSM.requestOf_of_mem registered
    rw [Board.answerTo_eq_some_iff, mem_clientAnswer_iff, asks, stage.board_firstExpiry]
    unfold ClientResvEntry.openRequest
    by_cases waiting : (served.clientAt cli).isWaitingForResv = true <;> simp [waiting]
  rw [stage.ticked.answers stage.reservedExact]
  constructor
  · rintro ⟨cli, member, isAnswer⟩
    have registered := stage.clients.inv.onHeap cli (stage.ticked.due cli member).1
    exact ⟨cli.cliID, (given cli registered).mpr isAnswer⟩
  · rintro ⟨clientID, isAnswer⟩
    obtain ⟨request, asks, _⟩ := (Board.answerTo_eq_some_iff _ _ _).mp isAnswer
    obtain ⟨cli, registered, rfl, _⟩ := (JSM.requestOf_eq_some_iff request).mp asks
    have answer := (given cli registered).mp isAnswer
    exact ⟨cli, stage.mem_processed_of_answer registered answer, answer⟩

theorem ClientStage.mem_answered_iff (clientID : ClientID) :
    clientID ∈ answers.map (·.clientId) ↔
      ((served.board.lapse now).answerTo now clientID).isSome := by
  rw [List.mem_map, Option.isSome_iff_exists]
  have named : ∀ {resv other}, (served.board.lapse now).answerTo now other = some resv →
      resv.clientId = other := by
    intro resv other isAnswer
    obtain ⟨_, _, ⟨_, rfl⟩ | ⟨_, _, _, _, rfl⟩⟩ :=
      (Board.answerTo_eq_some_iff _ _ _).mp isAnswer <;> rfl
  constructor
  · rintro ⟨resv, member, rfl⟩
    obtain ⟨other, isAnswer⟩ := (stage.mem_answers_iff resv).mp member
    exact ⟨resv, named isAnswer ▸ isAnswer⟩
  · rintro ⟨resv, isAnswer⟩
    exact ⟨resv, (stage.mem_answers_iff resv).mpr ⟨clientID, isAnswer⟩, named isAnswer⟩

theorem ClientStage.openRequest_after {cli : CliPtr}
    (registered : cli ∈ served.clients.entries) :
    (after.clientAt cli).openRequest =
      if cli.cliID ∈ answers.map (·.clientId) then none
      else (served.clientAt cli).openRequest := by
  by_cases isProcessed : cli ∈ processed
  · obtain ⟨_, deadline, waiting, _, reqID⟩ :=
      ClientResvEntry.fields_of_content_eq (stage.ticked.own cli isProcessed)
    unfold ClientResvEntry.openRequest
    rw [deadline, waiting, reqID]
    split
    next => simp [ClientResvEntry.content, ClientResvEntry.idle]
    next => rfl
  · have unanswered : cli.cliID ∉ answers.map (·.clientId) := by
      intro member
      obtain ⟨resv, given, named⟩ := List.mem_map.mp member
      obtain ⟨other, otherProcessed, _, _, _, rfl⟩ := stage.ticked.given resv given
      have otherDue := stage.ticked.due other otherProcessed
      have otherRegistered := stage.clients.inv.onHeap other otherDue.1
      have isCli := served.clients.eq_of_cliID_eq otherRegistered registered named
      exact isProcessed (isCli ▸ otherProcessed)
    rw [if_neg unanswered]
    exact ClientResvEntry.openRequest_of_content (stage.ticked.others cli isProcessed)

theorem ClientStage.board :
    after.board = (served.board.lapse now).settle fun clientID =>
      ((served.board.lapse now).answerTo now clientID).isSome := by
  have answered := stage.mem_answered_iff
  ext1
  · exact stage.board_jobs
  · exact stage.ticked.maxJobID
  · apply JSM.requestOf_settle
    · exact fun cli member => stage.ticked.entries ▸ member
    · exact fun cli member _ => stage.ticked.entries ▸ member
    · intro cli registered
      rw [stage.openRequest_after registered]
      simp only [answered]
  · funext tubeName
    simp only [JSM.board, Board.settle, Board.lapse, stage.ticked.queues, List.filter_map]
    congr 1
    apply List.filter_congr
    intro cli _
    rw [Function.comp_apply, decide_not]
    congr 1
    rw [Bool.eq_iff_iff, decide_eq_true_eq, answered]
    rfl

end Stage

end Clients

/-! ## The whole tick -/

section Whole

variable {kinds : Kinds} {now : Int64} {walk : TubeWalk} {jsm woken served after : JSM}
  {matched : List (CliPtr × Job)} {processed : List CliPtr} {answers : List Reservation}

/-- The clocks stay early through each stage. -/
theorem ClockStep.inner {before after : JSM} (step : ClockStep InnerClock before after)
    (jobs : JobsOk kinds before) (jobsAfter : JobsOk kinds after) (reservedExact : kinds .reserved)
    (clocks : ClocksOk InnerClock before) : ClocksOk InnerClock after where
  owners := step.ownersOk jobsAfter reservedExact (fun _ inner => inner.2) clocks.owners
  clock := step.clocksOk jobs jobsAfter reservedExact (fun _ inner => inner.1) clocks.owners
    clocks.clock

theorem TickDone.clocksOk_served
    (done : TickDone kinds now walk matched processed answers jsm woken served after)
    (reservedExact : kinds .reserved) (jobs : JobsOk kinds jsm) (clocks : ClocksOk InnerClock jsm)
    (expiry : ExpiresWithin InnerClock jsm (.tick now walk)) : ClocksOk InnerClock served := by
  have woke : ClockStep InnerClock jsm woken := .of_jobs done.delay.clients
    fun id record recorded isReserved => done.delay.reserved_before recorded isReserved
  have gave : ClockStep InnerClock woken served :=
    done.ready.clockStep reservedExact (fun _ inner => inner.2) fun pair member => by
      obtain ⟨old, wasRecorded, sameTtr⟩ :=
        done.delay.ttr_before (done.ready.wasReady pair member).1
      exact sameTtr ▸ expiry _ rfl _ old wasRecorded
  exact gave.inner done.delay.jobs done.ready.jobs reservedExact
    (woke.inner jobs done.delay.jobs reservedExact clocks)

/-- A tick is one of the ticks that the board allows. -/
theorem TickDone.board_step
    (done : TickDone kinds now walk matched processed answers jsm woken served after)
    (strong : kinds.Strong) (ok : ContainersOk kinds jsm) (timer : DelayTimerOk jsm)
    (clocks : ClocksOk InnerClock jsm)
    (expiry : ExpiresWithin InnerClock jsm (.tick now walk)) :
    jsm.board.Step (.tick now walk)
      (.ok (.reservations (matchedReservations jsm matched ++ answers))) after.board := by
  let order := walk.ready woken.tubes.keys
  have wokenClients := ok.clients.of_clientView done.delay.clients
  have stage : ClientStage kinds now processed answers served after := ⟨done.clients, done.finished,
    done.ready.jobs, done.ready.clients,
    done.clocksOk_served strong.reserved ok.jobs clocks expiry, strong.reserved⟩
  have wokenBoard := done.delay.board timer
  have matching : (jsm.board.wake now).matching order = matched.map shownPair := by
    rw [← wokenBoard, done.delay.jobs.board_matching wokenClients strong.ready, done.order]
  have lapsed : jsm.board.lapsed now order = served.board.lapse now := by
    unfold Board.lapsed
    rw [matching, ← wokenBoard, ← done.ready.board wokenClients]
  have afterBoard : jsm.board.ticked now order = after.board := by
    unfold Board.ticked
    rw [lapsed, ← stage.board]
  have replies : ((jsm.board.wake now).matching order).map jsm.board.matchedAnswer =
      matchedReservations jsm matched := by
    obtain ⟨_, _, clientAt, _⟩ := JSM.fields_of_clientView done.delay.clients
    rw [matching, ← done.ready.map_matchedAnswer clientAt, wokenBoard]
    rfl
  have visits : ∀ tubeName, jsm.board.lines tubeName ≠ [] → tubeName ∈ order := by
    intro tubeName occupied
    have sameLines := (JSM.board_of_clientView done.delay.clients).2
    rw [← sameLines] at occupied
    obtain ⟨clientID, inLine⟩ := List.exists_mem_of_ne_nil _ occupied
    obtain ⟨cli, queued, _⟩ := List.mem_map.mp inLine
    rw [(walk.perm_ready woken.tubes.keys).mem_iff, JSM.mem_keys_iff_hasTube]
    exact woken.hasTube_of_waiting tubeName queued
  have step : jsm.board.Step (.tick now walk) _ _ := Board.Step.tick
    ((walk.perm_ready woken.tubes.keys).nodup_iff.mpr woken.tubes.keys_nodup) visits
    (List.Nodup.of_map _ done.clients.idsNodup) (by
      intro resv
      rw [lapsed]
      exact stage.mem_answers_iff resv)
  rw [replies, afterBoard] at step
  exact step

theorem DelayDone.board_inReach (done : DelayDone kinds now jsm woken) (readyExact : kinds .ready)
    (timer : DelayTimerOk jsm) (tubeName : TubeName) :
    WaitingLine.inReach (fun tubeName => (jsm.board.wake now).inOrder (.ready tubeName))
      jsm.board.lines tubeName = (jsm.inReach now tubeName).map (·.cliID) := by
  have wokenBoard := done.board timer
  rw [← done.inReach_eq readyExact]
  unfold WaitingLine.inReach
  dsimp only
  rw [← wokenBoard, done.jobs.board_inOrder_ready readyExact, List.length_map, List.map_take,
    ← (JSM.board_of_clientView done.clients).2]
  rfl

theorem DelayDone.apart (done : DelayDone kinds now jsm woken) (readyExact : kinds .ready)
    (timer : DelayTimerOk jsm) (clients : ClientsOk jsm) (apart : jsm.ReachApart now) :
    jsm.board.Apart now := by
  intro first second different clientID inFirst inSecond
  rw [done.board_inReach readyExact timer] at inFirst inSecond
  obtain ⟨cli, firstReach, rfl⟩ := List.mem_map.mp inFirst
  obtain ⟨other, secondReach, same⟩ := List.mem_map.mp inSecond
  have isCli := jsm.clients.eq_of_cliID_eq
    (clients.waiting_of_queued (List.mem_of_mem_take secondReach)).1
    (clients.waiting_of_queued (List.mem_of_mem_take firstReach)).1 same
  exact apart first second different cli firstReach (isCli ▸ secondReach)

end Whole

end Coolbeans
