import Coolbeans.ClientRuns

/-!
# Requests and their answers

The ledger of a history lists the reservation requests that were queued and
have not been answered since.  It is kept from the operations and their
answers alone.  In every run it agrees with the client entries, and every
answer of a tick settles one request of it.
-/

namespace Coolbeans

open FiniteMap PositionHeap StatefulProgram

/-- A reservation request. -/
structure Request where
  clientId : ClientID
  reqID : ReqID
  watchedTubes : List TubeName
  deriving DecidableEq, Repr

/-- A reservation carries the client and the id of a request. -/
def Request.AnsweredBy (request : Request) (resv : Reservation) : Prop :=
  resv.clientId = request.clientId ∧ resv.requestId = request.reqID

instance (request : Request) (resv : Reservation) : Decidable (request.AnsweredBy resv) :=
  inferInstanceAs (Decidable (_ ∧ _))

/-- The ledger after one more event. -/
def enterEvent (ledger : List Request) : Op × Answer → List Request
  | (.appendReservation clientId reqID watchedTubes _ _, .ok (.reservation resv)) =>
      if resv.status = .queued then ledger ++ [⟨clientId, reqID, watchedTubes⟩] else ledger
  | (.tick _ _, .ok (.reservations resvs)) =>
      ledger.filter fun request => ∀ resv ∈ resvs, ¬ request.AnsweredBy resv
  | _ => ledger

/-- The requests of a history that were queued and have not been answered since. -/
def outstanding (events : List (Op × Answer)) : List Request :=
  events.foldl enterEvent []

/-- The client's entry says that it waits for the answer to the request. -/
def JSM.Awaits (jsm : JSM) (request : Request) : Prop :=
  ∃ cli ∈ jsm.clients.entries, cli.cliID = request.clientId ∧
    (jsm.clientAt cli).isWaitingForResv = true ∧ (jsm.clientAt cli).reqID = request.reqID ∧
    (jsm.clientAt cli).watchedTubes = request.watchedTubes

theorem JSM.Awaits.eq {jsm : JSM} {first second : Request} (awaitsFirst : jsm.Awaits first)
    (awaitsSecond : jsm.Awaits second) (same : first.clientId = second.clientId) :
    first = second := by
  obtain ⟨cli, member, isClient, _, isReq, isWatched⟩ := awaitsFirst
  obtain ⟨other, otherMember, isOther, _, isReq', isWatched'⟩ := awaitsSecond
  have sameId : cli.cliID = other.cliID := by rw [isClient, isOther, same]
  have sameCli := jsm.clients.eq_of_cliID_eq member otherMember sameId
  subst other
  cases first
  cases second
  simp_all

/-! ## Settling requests -/

/-- The answers settle requests that were awaited, one for each client that
gets one; the others are still awaited. -/
structure Settles (resvs : List Reservation) (before after : JSM) : Prop where
  nodup : (resvs.map (·.clientId)).Nodup
  awaited : ∀ resv ∈ resvs, ∃ request, before.Awaits request ∧ request.AnsweredBy resv
  rest : ∀ request, after.Awaits request ↔
    before.Awaits request ∧ request.clientId ∉ resvs.map (·.clientId)

section Settles

variable {before middle after : JSM}

theorem Settles.append {resvs later : List Reservation} (first : Settles resvs before middle)
    (second : Settles later middle after) : Settles (resvs ++ later) before after := by
  have laterAwaited : ∀ resv ∈ later, ∃ request, (before.Awaits request ∧
      request.clientId ∉ resvs.map (·.clientId)) ∧ request.AnsweredBy resv := by
    intro resv member
    obtain ⟨request, awaits, answered⟩ := second.awaited resv member
    exact ⟨request, (first.rest request).mp awaits, answered⟩
  refine ⟨?_, fun resv member => ?_, fun request => ?_⟩
  · rw [List.map_append, List.nodup_append']
    refine ⟨first.nodup, second.nodup, fun clientID inFirst inSecond => ?_⟩
    obtain ⟨resv, member, rfl⟩ := List.mem_map.mp inSecond
    obtain ⟨request, ⟨_, unanswered⟩, sameClient, _⟩ := laterAwaited resv member
    exact unanswered (sameClient ▸ inFirst)
  · rcases List.mem_append.mp member with inFirst | inSecond
    · exact first.awaited resv inFirst
    · obtain ⟨request, ⟨awaits, _⟩, answered⟩ := laterAwaited resv inSecond
      exact ⟨request, awaits, answered⟩
  · rw [second.rest, first.rest, List.map_append, List.mem_append, not_or, and_assoc]

theorem settles_nil_of_kept
    (registered : ∀ cli ∈ after.clients.entries, cli ∈ before.clients.entries)
    (kept : ∀ cli ∈ before.clients.entries, (before.clientAt cli).isWaitingForResv = true →
      cli ∈ after.clients.entries)
    (same : ∀ cli ∈ before.clients.entries,
      (after.clientAt cli).isWaitingForResv = (before.clientAt cli).isWaitingForResv ∧
        (after.clientAt cli).reqID = (before.clientAt cli).reqID ∧
        (after.clientAt cli).watchedTubes = (before.clientAt cli).watchedTubes) :
    Settles [] before after := by
  refine ⟨by simp, by simp, fun request => ?_⟩
  rw [List.map_nil, and_iff_left List.not_mem_nil]
  constructor
  · rintro ⟨cli, member, isClient, waiting, isReq, isWatched⟩
    obtain ⟨sameWaiting, sameReq, sameWatched⟩ := same cli (registered cli member)
    exact ⟨cli, registered cli member, isClient, sameWaiting ▸ waiting, sameReq ▸ isReq,
      sameWatched ▸ isWatched⟩
  · rintro ⟨cli, member, isClient, waiting, isReq, isWatched⟩
    obtain ⟨sameWaiting, sameReq, sameWatched⟩ := same cli member
    exact ⟨cli, kept cli member waiting, isClient, sameWaiting.trans waiting,
      sameReq.trans isReq, sameWatched.trans isWatched⟩

theorem settles_nil_of_clientView (same : after.clientView = before.clientView) :
    Settles [] before after := by
  obtain ⟨clients, _, clientAt, _⟩ := JSM.fields_of_clientView same
  apply settles_nil_of_kept
  · exact fun cli member => clients ▸ member
  · exact fun cli member _ => clients ▸ member
  · exact fun cli _ => clientAt ▸ ⟨rfl, rfl, rfl⟩

/-- A waiting client is not forgotten when its clock is set. -/
theorem Rescheduled.settles_nil {cli : CliPtr} (clientsOk : ClientsOk before)
    (registered : cli ∈ before.clients.entries)
    (rescheduled : Rescheduled cli (before.tickAtFor cli) before after) :
    Settles [] before after := by
  refine settles_nil_of_kept rescheduled.subset (fun other member waiting => ?_)
    fun other _ => ?_
  · rw [rescheduled.entries]
    split
    next => exact member
    next forgotten =>
      refine List.mem_filter.mpr ⟨member, ?_⟩
      rw [decide_eq_true_eq]
      rintro rfl
      exact forgotten (Or.inl (JSM.tickAtFor_lt_maxTime waiting
        (clientsOk.deadline other registered waiting)))
  · have content := rescheduled.content other
    split at content
    next isCli =>
      subst other
      obtain ⟨watched, _, waiting, _, reqID⟩ := ClientResvEntry.fields_of_content_eq content
      exact ⟨waiting, reqID, watched⟩
    next =>
      obtain ⟨watched, _, waiting, _, reqID⟩ := ClientResvEntry.fields_of_content content
      exact ⟨waiting, reqID, watched⟩

variable {kinds : Kinds} {nowSecs : Int64}

theorem map_clientId_matchedReservations (jsm : JSM) (pairs : List (CliPtr × Job)) :
    (matchedReservations jsm pairs).map (·.clientId) = (pairs.map Prod.fst).map (·.cliID) := by
  simp [matchedReservations, matchedReservation]

theorem ServedAll.settles {pairs : List (CliPtr × Job)}
    (served : ServedAll kinds nowSecs pairs before after) :
    Settles (matchedReservations before pairs) before after := by
  have registered : ∀ cli ∈ pairs.map Prod.fst, cli ∈ before.clients.entries := by
    intro cli member
    obtain ⟨pair, inside, rfl⟩ := List.mem_map.mp member
    exact (served.wasWaiting pair inside).1
  have isServed : ∀ cli ∈ before.clients.entries,
      cli.cliID ∈ (pairs.map Prod.fst).map (·.cliID) ↔ cli ∈ pairs.map Prod.fst := by
    intro cli member
    constructor
    · intro listed
      obtain ⟨other, inside, same⟩ := List.mem_map.mp listed
      exact before.clients.eq_of_cliID_eq (registered other inside) member same ▸ inside
    · exact fun inside => List.mem_map_of_mem inside
  refine ⟨?_, fun resv member => ?_, fun request => ?_⟩
  · rw [map_clientId_matchedReservations]
    refine served.clientsNodup.map_on fun first firstMember second secondMember same => ?_
    exact before.clients.eq_of_cliID_eq (registered first firstMember)
      (registered second secondMember) same
  · obtain ⟨pair, inside, rfl⟩ := List.mem_map.mp member
    obtain ⟨isRegistered, waiting, _⟩ := served.wasWaiting pair inside
    exact ⟨⟨pair.1.cliID, (before.clientAt pair.1).reqID, (before.clientAt pair.1).watchedTubes⟩,
      ⟨pair.1, isRegistered, rfl, waiting, rfl, rfl⟩, rfl, rfl⟩
  · rw [map_clientId_matchedReservations]
    constructor
    · rintro ⟨cli, member, isClient, waiting, isReq, isWatched⟩
      have wasRegistered := served.registered_before member
      have unserved : cli ∉ pairs.map Prod.fst := by
        intro inside
        rw [served.not_waiting inside] at waiting
        cases waiting
      obtain ⟨sameWatched, _, sameWaiting, _, sameReq⟩ :=
        ClientResvEntry.fields_of_content (served.others cli unserved)
      refine ⟨⟨cli, wasRegistered, isClient, sameWaiting ▸ waiting, sameReq ▸ isReq,
        sameWatched ▸ isWatched⟩, ?_⟩
      rw [← isClient, isServed cli wasRegistered]
      exact unserved
    · rintro ⟨⟨cli, member, isClient, waiting, isReq, isWatched⟩, unlisted⟩
      rw [← isClient, isServed cli member] at unlisted
      obtain ⟨sameWatched, _, sameWaiting, _, sameReq⟩ :=
        ClientResvEntry.fields_of_content (served.others cli unlisted)
      refine ⟨cli, ?_, isClient, sameWaiting.trans waiting, sameReq.trans isReq,
        sameWatched.trans isWatched⟩
      rw [served.entries, List.mem_filter]
      exact ⟨member, by simp only [decide_eq_true_eq]; exact Or.inl unlisted⟩

theorem ClientsTicked.settles {processed : List CliPtr} {resvs : List Reservation}
    (clientsOk : ClientsOk before)
    (ticked : ClientsTicked kinds nowSecs processed resvs before after) :
    Settles resvs before after := by
  have registered : ∀ cli ∈ processed, cli ∈ before.clients.entries :=
    fun cli member => clientsOk.inv.onHeap cli (ticked.due cli member).1
  -- the answered clients are idle now, the others as they were
  have answered : ∀ cli ∈ before.clients.entries, cli.cliID ∈ resvs.map (·.clientId) →
      (after.clientAt cli).isWaitingForResv = false := by
    intro cli member listed
    obtain ⟨resv, inside, same⟩ := List.mem_map.mp listed
    obtain ⟨other, isProcessed, _, status, _, rfl⟩ := ticked.given resv inside
    have isOther := before.clients.eq_of_cliID_eq (registered other isProcessed) member same
    subst other
    have own := ticked.own cli isProcessed
    rw [if_pos listed] at own
    exact (ClientResvEntry.fields_of_content_eq own).2.2.1
  have unanswered : ∀ cli, cli.cliID ∉ resvs.map (·.clientId) →
      (after.clientAt cli).isWaitingForResv = (before.clientAt cli).isWaitingForResv ∧
        (after.clientAt cli).reqID = (before.clientAt cli).reqID ∧
        (after.clientAt cli).watchedTubes = (before.clientAt cli).watchedTubes := by
    intro cli unlisted
    by_cases isProcessed : cli ∈ processed
    · have own := ticked.own cli isProcessed
      rw [if_neg unlisted] at own
      obtain ⟨watched, _, waiting, _, reqID⟩ := ClientResvEntry.fields_of_content_eq own
      exact ⟨waiting, reqID, watched⟩
    · obtain ⟨watched, _, waiting, _, reqID⟩ :=
        ClientResvEntry.fields_of_content (ticked.others cli isProcessed)
      exact ⟨waiting, reqID, watched⟩
  refine ⟨ticked.idsNodup, fun resv member => ?_, fun request => ?_⟩
  · obtain ⟨cli, isProcessed, waiting, status, _, rfl⟩ := ticked.given resv member
    exact ⟨⟨cli.cliID, (before.clientAt cli).reqID, (before.clientAt cli).watchedTubes⟩,
      ⟨cli, registered cli isProcessed, rfl, waiting, rfl, rfl⟩, rfl, rfl⟩
  · unfold JSM.Awaits
    rw [ticked.entries]
    constructor
    · rintro ⟨cli, member, isClient, waiting, isReq, isWatched⟩
      have unlisted : cli.cliID ∉ resvs.map (·.clientId) := by
        intro listed
        rw [answered cli member listed] at waiting
        cases waiting
      obtain ⟨sameWaiting, sameReq, sameWatched⟩ := unanswered cli unlisted
      exact ⟨⟨cli, member, isClient, sameWaiting ▸ waiting, sameReq ▸ isReq,
        sameWatched ▸ isWatched⟩, isClient ▸ unlisted⟩
    · rintro ⟨⟨cli, member, isClient, waiting, isReq, isWatched⟩, unlisted⟩
      obtain ⟨sameWaiting, sameReq, sameWatched⟩ := unanswered cli (isClient ▸ unlisted)
      exact ⟨cli, member, isClient, sameWaiting.trans waiting, sameReq.trans isReq,
        sameWatched.trans isWatched⟩

theorem matchedReservations_congr {pairs : List (CliPtr × Job)}
    (same : after.clientView = before.clientView) :
    matchedReservations after pairs = matchedReservations before pairs := by
  obtain ⟨_, _, clientAt, _⟩ := JSM.fields_of_clientView same
  simp only [matchedReservations, clientAt]

theorem TickDone.settles {walk : TubeWalk} {matched : List (CliPtr × Job)}
    {processed : List CliPtr} {answers : List Reservation} {woken served : JSM}
    (done : TickDone kinds nowSecs walk matched processed answers before woken served after) :
    Settles (matchedReservations before matched ++ answers) before after := by
  rw [← matchedReservations_congr done.delay.clients]
  exact ((settles_nil_of_clientView done.delay.clients).append done.ready.settles).append
    (done.clients.settles done.ready.clients)

/-! ## Asking -/

theorem Asked.awaits {cli : CliPtr} {reqID : ReqID} {watchedTubes : List TubeName}
    {resvDeadlineAt : Int64} {queues : TubeName → List CliPtr}
    (asked : Asked cli reqID watchedTubes resvDeadlineAt queues before after)
    (request : Request) : after.Awaits request ↔
      before.Awaits request ∨ request = ⟨cli.cliID, reqID, watchedTubes⟩ := by
  obtain ⟨isWatched, _, isWaiting, isReq⟩ := asked.entry
  have others : ∀ other, other ≠ cli →
      (after.clientAt other).content = (before.clientAt other).content := by
    intro other different
    rw [asked.content, if_neg different]
  constructor
  · rintro ⟨other, member, isClient, waiting, sameReq, sameWatched⟩
    by_cases isCli : other = cli
    · subst other
      right
      cases request
      simp_all
    · left
      have old : other ∈ before.clients.entries := by
        rw [asked.entries] at member
        split at member
        · exact member
        · exact (List.mem_append.mp member).resolve_right (by simpa using isCli)
      obtain ⟨watched, _, stillWaiting, _, req⟩ :=
        ClientResvEntry.fields_of_content (others other isCli)
      exact ⟨other, old, isClient, stillWaiting ▸ waiting, req ▸ sameReq, watched ▸ sameWatched⟩
  · rintro (⟨other, member, isClient, waiting, sameReq, sameWatched⟩ | rfl)
    · have different : other ≠ cli := by
        rintro rfl
        rw [asked.idle other member rfl] at waiting
        cases waiting
      obtain ⟨watched, _, stillWaiting, _, req⟩ :=
        ClientResvEntry.fields_of_content (others other different)
      refine ⟨other, ?_, isClient, stillWaiting.trans waiting, req.trans sameReq,
        watched.trans sameWatched⟩
      rw [asked.entries]
      split
      · exact member
      · exact List.mem_append_left _ member
    · exact ⟨cli, asked.registered, rfl, isWaiting, isReq, isWatched⟩

theorem Asked.not_awaits {cli : CliPtr} {reqID : ReqID} {watchedTubes : List TubeName}
    {resvDeadlineAt : Int64} {queues : TubeName → List CliPtr}
    (asked : Asked cli reqID watchedTubes resvDeadlineAt queues before after)
    {request : Request} (awaits : before.Awaits request) : request.clientId ≠ cli.cliID := by
  obtain ⟨other, member, isClient, waiting, _⟩ := awaits
  intro same
  rw [asked.idle other member (isClient.trans same)] at waiting
  cases waiting

/-- The job hands over in a match is one that a look at the tube would find. -/
theorem JobsOk.ready_of_head {jsm : JSM} (jobs : JobsOk kinds jsm) (readyExact : kinds .ready)
    {tubeName : TubeName} {entry : Nat}
    (head : (jsm.heapAt (.ready tubeName)).head? = some entry) :
    jsm.recordOf (jsm.jobOf entry).id = some (jsm.jobOf entry) ∧
      (jsm.jobOf entry).state = .ready ∧ (jsm.jobOf entry).tubeName = tubeName := by
  obtain ⟨recorded, home⟩ := jobs.recordOf_jobOf (.ready tubeName) readyExact
    (List.mem_of_head? head)
  exact ⟨recorded, (Job.home_eq_ready_iff _ _).mp home⟩

section Appended

variable {clientId : ClientID} {reqID : ReqID} {watchedTubes : List TubeName}
  {resvDeadlineAt : Int64} {resv : Reservation} {cli : CliPtr}

theorem Appended.awaits_queued
    (appended : Appended kinds clientId reqID watchedTubes nowSecs resvDeadlineAt resv cli
      before middle after) (queued : resv.status = .queued) (request : Request) :
    after.Awaits request ↔ before.Awaits request ∨ request = ⟨clientId, reqID, watchedTubes⟩ := by
  rcases appended.outcome with ⟨_, _, rescheduled⟩ | ⟨tubeName, _, entry, _, _, rfl⟩
  · have kept := (rescheduled.settles_nil appended.clientsMiddle
      appended.asked.registered).rest request
    rw [kept, appended.asked.awaits, appended.cliID]
    simp
  · cases queued

theorem Appended.awaits_matched (jobs : JobsOk kinds before) (readyExact : kinds .ready)
    (appended : Appended kinds clientId reqID watchedTubes nowSecs resvDeadlineAt resv cli
      before middle after) (unqueued : resv.status ≠ .queued) (request : Request) :
    after.Awaits request ↔ before.Awaits request := by
  rcases appended.outcome with ⟨rfl, _⟩ | ⟨tubeName, watched, entry, head, served, _⟩
  · exact absurd rfl unqueued
  · obtain ⟨_, isReady, inTube⟩ := jobs.ready_of_head readyExact head
    obtain ⟨isWatched, _, isWaiting, _⟩ := appended.asked.entry
    have single := ServedAll.single appended.asked.registered isWaiting
      (by rw [isWatched, inTube]; exact watched) isReady served
    rw [single.settles.rest, map_clientId_matchedReservations, appended.asked.awaits]
    constructor
    · rintro ⟨awaits | rfl, unserved⟩
      · exact awaits
      · simp at unserved
    · intro awaits
      exact ⟨Or.inl awaits, by simpa using appended.asked.not_awaits awaits⟩

end Appended

/-! ## Steps -/

/-- The operations that answer with reservations. -/
def Op.Reserves : Op → Prop
  | .appendReservation _ _ _ _ _ | .tick _ _ => True
  | _ => False

/-- What a step does to the awaited requests: a request that is queued is added, a tick
settles some, and nothing else changes them. -/
inductive RequestStep (before : JSM) : Op → Answer → JSM → Prop where
  | kept {op : Op} {answer : Answer} {after : JSM}
      (unreserved : op.Reserves → ∀ reply, answer = .ok reply →
        (∀ resv, reply ≠ .reservation resv) ∧ ∀ resvs, reply ≠ .reservations resvs)
      (settles : Settles [] before after) : RequestStep before op answer after
  | queued {clientId : ClientID} {reqID : ReqID} {watchedTubes : List TubeName}
      {nowSecs resvDeadlineAt : Int64} {resv : Reservation} {after : JSM}
      (addressed : resv.clientId = clientId ∧ resv.requestId = reqID)
      (status : resv.status = .queued)
      (idle : ∀ request, before.Awaits request → request.clientId ≠ clientId)
      (adds : ∀ request, after.Awaits request ↔
        before.Awaits request ∨ request = ⟨clientId, reqID, watchedTubes⟩) :
      RequestStep before
        (.appendReservation clientId reqID watchedTubes nowSecs resvDeadlineAt)
        (.ok (.reservation resv)) after
  | matched {clientId : ClientID} {reqID : ReqID} {watchedTubes : List TubeName}
      {nowSecs resvDeadlineAt : Int64} {resv : Reservation} {after : JSM}
      (addressed : resv.clientId = clientId ∧ resv.requestId = reqID)
      (status : resv.status = .matched)
      (settles : Settles [] before after) :
      RequestStep before
        (.appendReservation clientId reqID watchedTubes nowSecs resvDeadlineAt)
        (.ok (.reservation resv)) after
  | ticked {nowSecs : Int64} {walk : TubeWalk} {resvs : List Reservation} {after : JSM}
      (statuses : ∀ resv ∈ resvs,
        resv.status = .matched ∨ resv.status = .timeout ∨ resv.status = .deadlineSoon)
      (settles : Settles resvs before after) :
      RequestStep before (.tick nowSecs walk) (.ok (.reservations resvs)) after

theorem settles_nil_of_awaits (same : ∀ request, after.Awaits request ↔ before.Awaits request) :
    Settles [] before after := by
  refine ⟨by simp, by simp, fun request => ?_⟩
  rw [same, List.map_nil, and_iff_left List.not_mem_nil]

theorem Settles.refl (jsm : JSM) : Settles [] jsm jsm :=
  settles_nil_of_awaits fun _ => Iff.rfl

theorem RequestStep.settles_of_plain {op : Op} {answer : Answer}
    (step : RequestStep before op answer after) (plain : ¬ op.Reserves) :
    Settles [] before after := by
  cases step with
  | kept _ settles => exact settles
  | queued | matched | ticked => exact absurd trivial plain

theorem Appended.requestStep {clientId : ClientID} {reqID : ReqID} {watchedTubes : List TubeName}
    {resvDeadlineAt : Int64} {resv : Reservation} {cli : CliPtr} (jobs : JobsOk kinds before)
    (readyExact : kinds .ready)
    (appended : Appended kinds clientId reqID watchedTubes nowSecs resvDeadlineAt resv cli
      before middle after) :
    RequestStep before (.appendReservation clientId reqID watchedTubes nowSecs resvDeadlineAt)
      (.ok (.reservation resv)) after := by
  have isClient := appended.cliID
  rcases appended.outcome with ⟨isQueued, _⟩ | ⟨_, _, entry, _, _, isMatched⟩
  · apply RequestStep.queued
    · simp [isQueued, emptyReservation, isClient]
    · rw [isQueued]
      rfl
    · intro request awaits
      rw [← isClient]
      exact appended.asked.not_awaits awaits
    · apply appended.awaits_queued
      rw [isQueued]
      rfl
  · apply RequestStep.matched
    · simp [isMatched, matchedReservation, isClient]
    · rw [isMatched]
      rfl
    · apply settles_nil_of_awaits
      apply appended.awaits_matched jobs readyExact
      rw [isMatched]
      simp [matchedReservation]

theorem TickDone.statuses {walk : TubeWalk} {matched : List (CliPtr × Job)}
    {processed : List CliPtr} {answers : List Reservation} {woken served : JSM}
    (done : TickDone kinds nowSecs walk matched processed answers before woken served after) :
    ∀ resv ∈ matchedReservations before matched ++ answers,
      resv.status = .matched ∨ resv.status = .timeout ∨ resv.status = .deadlineSoon := by
  intro resv member
  rcases List.mem_append.mp member with inMatched | inAnswers
  · obtain ⟨pair, _, rfl⟩ := List.mem_map.mp inMatched
    exact Or.inl rfl
  · obtain ⟨cli, _, _, status, given, rfl⟩ := done.clients.given resv inAnswers
    exact Or.inr given

theorem Effect.requestStep {op : Op} {answer : Answer} (containers : ContainersOk kinds before)
    (readyExact : kinds .ready) (effect : Effect kinds before op answer after) :
    RequestStep before op answer after := by
  cases effect with
  | refused same => exact .kept (by simp) (settles_nil_of_clientView same.frame.clients)
  | looked => exact .kept (by simp) (settles_nil_of_clientView rfl)
  | put _ done => exact .kept (by simp) (settles_nil_of_clientView done.clients)
  | putTaken _ done => exact .kept (by simp) (settles_nil_of_clientView done.clients)
  | deleted deleted =>
      exact .kept (fun impossible => impossible.elim)
        (settles_nil_of_clientView deleted.frame.clients)
  | givenUp _ _ done => exact .kept (by simp) (settles_nil_of_clientView done.clients)
  | kicked _ moved => exact .kept (by simp) (settles_nil_of_clientView moved.frame.clients)
  | kickedSome kicked =>
      exact .kept (fun impossible => impossible.elim)
        (settles_nil_of_clientView kicked.frame.clients)
  | touched _ moved registered _ rescheduled =>
      have middleOk := containers.clients.of_clientView moved.frame.clients
      exact .kept (by simp) ((settles_nil_of_clientView moved.frame.clients).append
        (rescheduled.settles_nil middleOk registered))
  | touchedOrphan _ moved => exact .kept (by simp) (settles_nil_of_clientView moved.frame.clients)
  | appended _ appended => exact appended.requestStep containers.jobs readyExact
  | ticked done => exact .ticked done.statuses done.settles

theorem Admissible.ends_call {admits : JSM → Op → Prop} (admissible : Admissible kinds admits)
    (containers : ContainersOk kinds before) {op : Op} (admitted : admits before op) {α : Type}
    {call : JSMProg α} {convert : α → Reply} (isRun : op.run = convert <$> call) :
    (call before).Ends
      (fun value after => ContainersOk kinds after ∧
        RequestStep before op (.ok (convert value)) after)
      (fun error after => ContainersOk kinds after ∧ RequestStep before op (.error error) after)
      (¬ (kinds .reserved ∧ op.TubesNodup)) := by
  have step : ∀ answer after, Effect kinds before op answer after →
      ContainersOk kinds after ∧ RequestStep before op answer after := by
    intro answer after effect
    exact ⟨effect.containersOk containers,
      effect.requestStep containers admissible.readyExact⟩
  have ends := admissible.ends_effect containers admitted
  rw [isRun, Prog.map_apply] at ends
  cases result : call before with
  | ok value after =>
      rw [result] at ends
      exact step _ _ ends
  | err error after =>
      rw [result] at ends
      exact step _ _ ends
  | panic cause =>
      rw [result] at ends
      exact ends

/-! ## The ledger of a run -/

/-- The ledger lists the awaited requests, at most one for each client. -/
structure LedgerOk (ledger : List Request) (jsm : JSM) : Prop where
  nodup : (ledger.map (·.clientId)).Nodup
  awaits : ∀ request, request ∈ ledger ↔ jsm.Awaits request

variable {ledger : List Request}

theorem LedgerOk.of_settles_nil (ok : LedgerOk ledger before) (settles : Settles [] before after) :
    LedgerOk ledger after := by
  refine ⟨ok.nodup, fun request => ?_⟩
  rw [ok.awaits, settles.rest]
  simp

theorem LedgerOk.tick (ok : LedgerOk ledger before) {resvs : List Reservation}
    (settles : Settles resvs before after) :
    LedgerOk (ledger.filter fun request => ∀ resv ∈ resvs, ¬ request.AnsweredBy resv) after := by
  refine ⟨?_, fun request => ?_⟩
  · exact ok.nodup.sublist (List.filter_sublist.map _)
  · rw [List.mem_filter, decide_eq_true_eq, ok.awaits, settles.rest]
    refine and_congr_right fun awaits => ⟨fun unanswered listed => ?_, fun unlisted => ?_⟩
    · obtain ⟨resv, member, sameClient⟩ := List.mem_map.mp listed
      obtain ⟨other, otherAwaits, answered⟩ := settles.awaited resv member
      have same := otherAwaits.eq awaits (answered.1.symm.trans sameClient)
      exact unanswered resv member (same ▸ answered)
    · intro resv member answered
      exact unlisted (List.mem_map.mpr ⟨resv, member, answered.1⟩)

theorem enterEvent_unreserved (ledger : List Request) {op : Op} {answer : Answer}
    (unreserved : op.Reserves → ∀ reply, answer = .ok reply →
      (∀ resv, reply ≠ .reservation resv) ∧ ∀ resvs, reply ≠ .reservations resvs) :
    enterEvent ledger (op, answer) = ledger := by
  unfold enterEvent
  split
  next resv same =>
    cases same
    exact absurd rfl ((unreserved trivial _ rfl).1 resv)
  next resvs same =>
    cases same
    exact absurd rfl ((unreserved trivial _ rfl).2 resvs)
  next => rfl

theorem LedgerOk.step (ok : LedgerOk ledger before) {op : Op} {answer : Answer}
    (step : RequestStep before op answer after) :
    LedgerOk (enterEvent ledger (op, answer)) after := by
  cases step with
  | kept unreserved settles =>
      rw [enterEvent_unreserved ledger unreserved]
      exact ok.of_settles_nil settles
  | queued _ status idle adds =>
      dsimp only [enterEvent]
      rw [if_pos status]
      refine ⟨?_, fun request => ?_⟩
      · rw [List.map_append, List.nodup_append']
        refine ⟨ok.nodup, List.nodup_singleton _, fun clientID inLedger isNew => ?_⟩
        obtain ⟨request, member, rfl⟩ := List.mem_map.mp inLedger
        exact idle request ((ok.awaits request).mp member) (List.mem_singleton.mp isNew)
      · rw [List.mem_append, ok.awaits, adds, List.mem_singleton]
  | matched _ status settles =>
      dsimp only [enterEvent]
      rw [if_neg (by simp [status])]
      exact ok.of_settles_nil settles
  | ticked _ settles => exact ok.tick settles

end Settles

theorem LedgerOk.run {kinds : Kinds} {admits : JSM → Op → Prop} {start last : JSM}
    {ledger : List Request} {events : List (Op × Answer)} (ok : LedgerOk ledger start)
    (admissible : Admissible kinds admits) (containers : ContainersOk kinds start)
    (run : Run admits start events last) : LedgerOk (events.foldl enterEvent ledger) last := by
  induction run with
  | nil => exact ok
  | snoc run admitted steps induction =>
      have before := admissible.run run containers
      rw [List.foldl_append]
      exact induction.step ((admissible.effect before admitted steps).requestStep before
        admissible.readyExact)

theorem ledgerOk_newJSM : LedgerOk [] newJSM := by
  refine ⟨List.nodup_nil, fun request => ⟨fun member => absurd member List.not_mem_nil, ?_⟩⟩
  rintro ⟨cli, member, _⟩
  cases member

/-! ## Answers -/

/-- A matched reservation hands over a job of one of the tubes, which was
available before. -/
def HandsOver (available : Job → Prop) (jsm : JSM) (watchedTubes : List TubeName)
    (resv : Reservation) : Prop :=
  ∃ record, jsm.recordOf resv.jobId = some record ∧ available record ∧
    record.tubeName ∈ watchedTubes ∧ resv.bodySize = record.bodySize ∧ resv.body = record.body

/-- A job that a tick can match: it is ready, or its delay ends in this tick. -/
def Job.AvailableAt (nowSecs : Int64) (job : Job) : Prop :=
  job.state = .ready ∨ job.state = .delayed ∧ job.readyAt < nowSecs

section Answers

variable {kinds : Kinds} {nowSecs : Int64} {before woken served after : JSM}

theorem DelayDone.record_before (done : DelayDone kinds nowSecs before woken) {job : Job}
    (recorded : woken.recordOf job.id = some job) (isReady : job.state = .ready) :
    ∃ record, before.recordOf job.id = some record ∧ record.AvailableAt nowSecs ∧
      record.tubeName = job.tubeName ∧ record.bodySize = job.bodySize ∧
      record.body = job.body := by
  rw [done.records] at recorded
  obtain ⟨record, wasRecorded, isJob⟩ := Option.map_eq_some_iff.mp recorded
  refine ⟨record, wasRecorded, ?_⟩
  by_cases due : record.state = .delayed ∧ record.readyAt < nowSecs
  · rw [Job.wake, if_pos due] at isJob
    refine ⟨Or.inr due, ?_⟩
    split at isJob <;> rw [← isJob] <;> simp
  · rw [Job.wake, if_neg due, ite_self] at isJob
    rw [isJob]
    exact ⟨Or.inl isReady, rfl, rfl, rfl⟩

/-- A matched answer of a tick names an available job of the request. -/
theorem TickDone.handsOver {walk : TubeWalk} {matched : List (CliPtr × Job)}
    {processed : List CliPtr} {answers : List Reservation}
    (done : TickDone kinds nowSecs walk matched processed answers before woken served after)
    {resv : Reservation} (member : resv ∈ matchedReservations before matched ++ answers)
    (isMatched : resv.status = .matched) :
    ∃ request, before.Awaits request ∧ request.AnsweredBy resv ∧
      HandsOver (Job.AvailableAt nowSecs) before request.watchedTubes resv := by
  obtain ⟨clients, _, clientAt, _⟩ := JSM.fields_of_clientView done.delay.clients
  rcases List.mem_append.mp member with inMatched | inAnswers
  · obtain ⟨⟨cli, job⟩, inside, rfl⟩ := List.mem_map.mp inMatched
    obtain ⟨registered, waiting, watched⟩ := done.ready.wasWaiting _ inside
    obtain ⟨recorded, isReady⟩ := done.ready.wasReady _ inside
    obtain ⟨record, wasRecorded, available, sameTube, sameSize, sameBody⟩ :=
      done.delay.record_before recorded isReady
    rw [clients] at registered
    rw [clientAt] at waiting watched
    refine ⟨⟨cli.cliID, (before.clientAt cli).reqID, (before.clientAt cli).watchedTubes⟩,
      ⟨cli, registered, rfl, waiting, rfl, rfl⟩, ⟨rfl, rfl⟩, record, wasRecorded, available, ?_,
      sameSize.symm, sameBody.symm⟩
    rw [sameTube]
    exact watched
  · obtain ⟨cli, _, _, status, unmatched, rfl⟩ := done.clients.given resv inAnswers
    rcases unmatched with rfl | rfl <;> cases isMatched

/-- What the answers of the next operation have to do with the requests of the
history before it. -/
structure AnswersOnce (events : List (Op × Answer)) (jsm : JSM) : Prop where
  /-- No client has two requests outstanding. -/
  oneEach : ((outstanding events).map (·.clientId)).Nodup
  /-- A request is outstanding as long as its client's entry says so. -/
  unanswered : ∀ clientID reqID,
    (∃ request ∈ outstanding events, request.clientId = clientID ∧ request.reqID = reqID) ↔
      ∃ cli ∈ jsm.clients.entries, cli.cliID = clientID ∧
        (jsm.clientAt cli).isWaitingForResv = true ∧ (jsm.clientAt cli).reqID = reqID
  /-- A tick answers outstanding requests, each once. -/
  tick : ∀ nowSecs walk resvs after, (Op.tick nowSecs walk).Proper →
    (Op.tick nowSecs walk).Steps jsm (.ok (.reservations resvs)) after →
    (resvs.map (·.clientId)).Nodup ∧ ∀ resv ∈ resvs, ∃ request ∈ outstanding events,
      request.AnsweredBy resv ∧ (resv.status = .matched →
        HandsOver (Job.AvailableAt nowSecs) jsm request.watchedTubes resv)
  /-- A client with an outstanding request cannot ask again. -/
  refuses : ∀ request ∈ outstanding events, ∀ reqID watchedTubes nowSecs resvDeadlineAt answer
    after, (Op.appendReservation request.clientId reqID watchedTubes nowSecs
      resvDeadlineAt).Proper →
    (Op.appendReservation request.clientId reqID watchedTubes nowSecs resvDeadlineAt).Steps jsm
      answer after →
    answer = .error .clientIsWaitingForReservation ∨
      answer = .error .invalidResvTimeout ∧
        (resvDeadlineAt < nowSecs ∨ nowSecs + maxTimeoutSecs < resvDeadlineAt)
  /-- A request is queued, or matched at once with a ready job. -/
  append : ∀ clientId reqID watchedTubes nowSecs resvDeadlineAt resv after,
    (Op.appendReservation clientId reqID watchedTubes nowSecs resvDeadlineAt).Proper →
    (Op.appendReservation clientId reqID watchedTubes nowSecs resvDeadlineAt).Steps jsm
      (.ok (.reservation resv)) after →
    resv.clientId = clientId ∧ resv.requestId = reqID ∧
      (resv.status = .queued ∨
        resv.status = .matched ∧ HandsOver (·.state = .ready) jsm watchedTubes resv)

theorem refused_of_awaits (containers : ContainersOk kinds before) (readyExact : kinds .ready)
    {request : Request} (awaits : before.Awaits request) {reqID : ReqID}
    {watchedTubes : List TubeName} {resvDeadlineAt : Int64} {answer : Answer}
    (proper : (Op.appendReservation request.clientId reqID watchedTubes nowSecs
      resvDeadlineAt).Proper)
    (steps : (Op.appendReservation request.clientId reqID watchedTubes nowSecs
      resvDeadlineAt).Steps before answer after) :
    answer = .error .clientIsWaitingForReservation ∨
      answer = .error .invalidResvTimeout ∧
        (resvDeadlineAt < nowSecs ∨ nowSecs + maxTimeoutSecs < resvDeadlineAt) := by
  refine steps.meets (fun answer _ => answer = .error .clientIsWaitingForReservation ∨
    answer = .error .invalidResvTimeout ∧
      (resvDeadlineAt < nowSecs ∨ nowSecs + maxTimeoutSecs < resvDeadlineAt))
    (Prog.ends_map ((ends_appendReservation containers.jobs
    containers.clients readyExact request.clientId reqID watchedTubes
    proper.deadlineBounded).mono ?_ ?_ fun holds => holds))
  · rintro resv state ⟨_, cli, middle, appended⟩
    exact absurd appended.cliID.symm (appended.asked.not_awaits awaits)
  · rintro error state ⟨_, ⟨rfl, outOfRange⟩ | ⟨rfl, _⟩⟩
    · exact Or.inr ⟨rfl, outOfRange⟩
    · exact Or.inl rfl

end Answers

/-- In every run with clocks in Unix seconds, a request is answered once. -/
theorem answersOnce_of_run {events : List (Op × Answer)} {jsm : JSM}
    (run : Run (fun _ op => op.Proper) newJSM events jsm) : AnswersOnce events jsm := by
  have containers := admissible_proper.run run containersOk_newJSM
  have ledger : LedgerOk (outstanding events) jsm :=
    ledgerOk_newJSM.run admissible_proper containersOk_newJSM run
  have readyExact := admissible_proper.readyExact
  refine ⟨ledger.nodup, fun clientID reqID => ⟨?_, ?_⟩, ?_, ?_, ?_⟩
  · rintro ⟨request, member, rfl, rfl⟩
    obtain ⟨cli, registered, isClient, waiting, isReq, _⟩ := (ledger.awaits request).mp member
    exact ⟨cli, registered, isClient, waiting, isReq⟩
  · rintro ⟨cli, registered, isClient, waiting, isReq⟩
    exact ⟨⟨clientID, reqID, (jsm.clientAt cli).watchedTubes⟩, (ledger.awaits _).mpr
      ⟨cli, registered, isClient, waiting, isReq, rfl⟩, rfl, rfl⟩
  · intro nowSecs walk resvs after proper steps
    cases admissible_proper.effect containers proper steps with
    | ticked done =>
        refine ⟨done.settles.nodup, fun resv member => ?_⟩
        by_cases isMatched : resv.status = .matched
        · obtain ⟨request, awaits, answered, handsOver⟩ := done.handsOver member isMatched
          exact ⟨request, (ledger.awaits _).mpr awaits, answered, fun _ => handsOver⟩
        · obtain ⟨request, awaits, answered⟩ := done.settles.awaited resv member
          exact ⟨request, (ledger.awaits _).mpr awaits, answered, fun yes => absurd yes isMatched⟩
  · intro request member reqID watchedTubes nowSecs resvDeadlineAt answer after proper steps
    exact refused_of_awaits containers readyExact ((ledger.awaits _).mp member) proper steps
  · intro clientId reqID watchedTubes nowSecs resvDeadlineAt resv after proper steps
    cases admissible_proper.effect containers proper steps with
    | appended _ appended =>
        rcases appended.outcome with ⟨rfl, _⟩ | ⟨tubeName, watched, entry, head, _, rfl⟩
        · exact ⟨appended.cliID, rfl, Or.inl rfl⟩
        · obtain ⟨recorded, isReady, inTube⟩ := containers.jobs.ready_of_head readyExact head
          exact ⟨appended.cliID, rfl,
            Or.inr ⟨rfl, _, recorded, isReady, inTube ▸ watched, rfl, rfl⟩⟩

/-- A run with one request that is answered and one that is not. -/
def twoRequests : List Op :=
  [.appendReservation [7] [1] [[1]] 10 20, .appendReservation [8] [2] [[1], [2]] 10 20,
    .put 11 5 0 60 3 (some [1, 2, 3]) [1], .tick 12 .inOrder]

theorem run_twoRequests :
    Run (fun _ op => op.Proper) newJSM (history twoRequests newJSM) (stateAfter twoRequests) := by
  have proper : ∀ op ∈ twoRequests, op.Proper := by decide
  exact run_history twoRequests (admitted_of_forall (fun op member _ => proper op member) newJSM)
    (by decide +kernel)

theorem answersOnce_twoRequests :
    outstanding (history twoRequests newJSM) = [⟨[8], [2], [[1], [2]]⟩] ∧
      AnswersOnce (history twoRequests newJSM) (stateAfter twoRequests) :=
  ⟨by decide +kernel, answersOnce_of_run run_twoRequests⟩

/-- A deadline out of range is refused first, whether or not the client waits. -/
theorem refused_for_deadline_while_waiting :
    Run (fun _ op => op.Proper) newJSM (history twoRequests newJSM) (stateAfter twoRequests) ∧
      (outstanding (history twoRequests newJSM)).map (·.clientId) = [[8]] ∧
      (Op.appendReservation [8] [3] [[1]] 13 12).Proper ∧
      ((Op.appendReservation [8] [3] [[1]] 13 12).run (stateAfter twoRequests)).reply? =
        some (.error .invalidResvTimeout) :=
  ⟨run_twoRequests, by decide +kernel, by decide, by decide +kernel⟩

end Coolbeans
