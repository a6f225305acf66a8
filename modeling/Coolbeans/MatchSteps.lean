import Coolbeans.JobCommands
import Coolbeans.WaitQueueSteps

/-!
# Matching a client with a job

What it means that a waiting client has been served with a ready job, and that
`tryReserveJob` and `AppendReservation` do just that.  Both halves of the
state take part: the job moves to the reserved heap of the client, and the
client leaves its wait queues and is put on the client heap for the expiry of
its reserved jobs.
-/

namespace Coolbeans

open FiniteMap PositionHeap StatefulProgram

/-! ## The two halves leave each other alone -/

section Frames

variable {kinds : Kinds} {before after : JSM}

theorem ClientFrame.recordOf (frame : ClientFrame before after) :
    after.recordOf = before.recordOf := by
  obtain ⟨jobs, jobAt, _⟩ := JSM.fields_of_jobView frame.jobs
  funext id
  simp only [JSM.recordOf, jobs, jobAt]

theorem ClientFrame.heapAt (frame : ClientFrame before after) : after.heapAt = before.heapAt :=
  (JSM.fields_of_jobView frame.jobs).2.2.2.2.2

theorem ClientFrame.jobOf (frame : ClientFrame before after) : after.jobOf = before.jobOf := by
  obtain ⟨_, jobAt, _, entryAt, _⟩ := JSM.fields_of_jobView frame.jobs
  funext entry
  simp only [JSM.jobOf, jobAt, entryAt]

theorem ClientFrame.firstExpiry (frame : ClientFrame before after) :
    after.firstExpiry = before.firstExpiry := by
  funext clientID
  simp only [JSM.firstExpiry, frame.heapAt, frame.jobOf]

theorem JobsOk.of_clientFrame (inv : JobsOk kinds before) (frame : ClientFrame before after) :
    JobsOk kinds after := by
  obtain ⟨jobs, jobAt, nextJob, entryAt, nextEntry, heapAt⟩ :=
    JSM.fields_of_jobView frame.jobs
  unfold JobsOk
  rw [jobs]
  exact JobInv.congr inv jobAt nextJob entryAt nextEntry (congrFun heapAt)

theorem JSM.fields_of_clientView (same : after.clientView = before.clientView) :
    after.clients = before.clients ∧ after.clientHeap = before.clientHeap ∧
      after.clientAt = before.clientAt ∧ after.nextClient = before.nextClient ∧
      ∀ tubeName, (after.waitingAt tubeName).entries = (before.waitingAt tubeName).entries := by
  simp only [JSM.clientView, Prod.mk.injEq] at same
  obtain ⟨clients, clientHeap, clientAt, nextClient, queues⟩ := same
  exact ⟨clients, clientHeap, clientAt, nextClient, congrFun queues⟩

theorem JobFrame.fields (frame : JobFrame before after) :
    after.clients = before.clients ∧ after.clientHeap = before.clientHeap ∧
      after.clientAt = before.clientAt ∧ after.nextClient = before.nextClient ∧
      ∀ tubeName, (after.waitingAt tubeName).entries = (before.waitingAt tubeName).entries :=
  JSM.fields_of_clientView frame.clients

theorem ClientInv.of_clientView {wants : CliPtr → List TubeName} (inv : ClientInv wants before)
    (same : after.clientView = before.clientView) : ClientInv wants after := by
  obtain ⟨clients, clientHeap, clientAt, nextClient, queues⟩ := JSM.fields_of_clientView same
  refine inv.of_write clientHeap (fun cli member => ?_) (fun cli member => ?_)
    fun tubeName cli => ?_
  · rw [clientAt, clients]
    exact ⟨rfl, rfl, inv.onHeap cli member⟩
  · rw [clients] at member
    rw [clientAt, nextClient]
    exact ⟨inv.allocated cli member, inv.offHeap cli member⟩
  · rw [queues, clients]
    exact inv.queued tubeName cli

theorem ClientsOk.of_clientView (ok : ClientsOk before)
    (same : after.clientView = before.clientView) : ClientsOk after := by
  obtain ⟨clients, _, clientAt, _⟩ := JSM.fields_of_clientView same
  have wanted : after.wanted = before.wanted := by
    funext cli
    simp only [JSM.wanted, clientAt]
  refine ⟨?_, ?_, ?_⟩
  · rw [wanted]
    exact ok.inv.of_clientView same
  · rw [clients, clientAt]
    exact ok.deadline
  · rw [clients, clientAt]
    exact ok.nodup

theorem ClientsOk.of_idle {cli : CliPtr} (ok : ClientsOk before)
    (inv : ClientInv (Function.update before.wanted cli []) after)
    (idle : (after.clientAt cli).isWaitingForResv = false)
    (others : ∀ other, other ≠ cli →
      (after.clientAt other).content = (before.clientAt other).content)
    (subset : ∀ other ∈ after.clients.entries, other ∈ before.clients.entries) :
    ClientsOk after := by
  have wanted : after.wanted = Function.update before.wanted cli [] := by
    funext other
    rw [Function.update_apply]
    split
    next same => simp [same, JSM.wanted, idle]
    next different =>
      obtain ⟨watched, _, waiting, _⟩ := ClientResvEntry.fields_of_content (others other different)
      simp only [JSM.wanted, watched, waiting]
  refine ⟨wanted ▸ inv, fun other member isWaiting => ?_, fun other member isWaiting => ?_⟩
  all_goals
    have different : other ≠ cli := by
      rintro rfl
      rw [idle] at isWaiting
      cases isWaiting
    obtain ⟨watched, deadline, waiting, _⟩ :=
      ClientResvEntry.fields_of_content (others other different)
    rw [waiting] at isWaiting
  · rw [deadline]
    exact ok.deadline other (subset other member) isWaiting
  · rw [watched]
    exact ok.nodup other (subset other member) isWaiting

theorem Rescheduled.subset {cli : CliPtr} {tickAt : Int64}
    (rescheduled : Rescheduled cli tickAt before after) :
    ∀ other ∈ after.clients.entries, other ∈ before.clients.entries := by
  intro other member
  rw [rescheduled.entries] at member
  split at member
  · exact member
  · exact List.mem_of_mem_filter member

/-- The clock of a client is computed from its content and its jobs. -/
theorem JSM.tickAtFor_congr {cli : CliPtr}
    (waiting : (after.clientAt cli).isWaitingForResv = (before.clientAt cli).isWaitingForResv)
    (deadline : (after.clientAt cli).resvDeadlineAt = (before.clientAt cli).resvDeadlineAt)
    (expiry : after.firstExpiry = before.firstExpiry) :
    after.tickAtFor cli = before.tickAtFor cli := by
  simp only [JSM.tickAtFor, nextClientTickAt, waiting, deadline, expiry]

theorem Rescheduled.tickAtFor {cli : CliPtr} {tickAt : Int64}
    (rescheduled : Rescheduled cli tickAt before after) :
    after.tickAtFor cli = before.tickAtFor cli := by
  have content := rescheduled.content cli
  rw [if_pos rfl] at content
  obtain ⟨_, deadline, waiting, _⟩ := ClientResvEntry.fields_of_content_eq content
  exact JSM.tickAtFor_congr waiting deadline rescheduled.frame.firstExpiry

end Frames

/-! ## Serving a client -/

/-- A waiting client has been served with a ready job. -/
structure Served (kinds : Kinds) (nowSecs : Int64) (cli : CliPtr) (job : Job)
    (before after : JSM) : Prop where
  jobs : JobsOk kinds after
  clients : ClientsOk after
  was : before.recordOf job.id = some job
  records : ∀ other, after.recordOf other =
    if other = job.id then some (job.reservedFor nowSecs cli.cliID) else before.recordOf other
  content : ∀ other, (after.clientAt other).content =
    if other = cli then
      { (before.clientAt cli).content with
        isWaitingForResv := false, resvDeadlineAt := maxTime, tickAt := after.tickAtFor cli }
    else (before.clientAt other).content
  heap : ∀ other, other ∈ after.clientHeap ↔
    if other = cli then after.tickAtFor cli < maxTime else other ∈ before.clientHeap
  entries : after.clients.entries =
    if after.tickAtFor cli < maxTime ∨ cli ∉ before.clientHeap then before.clients.entries
    else before.clients.entries.filter (· ≠ cli)
  queues : ∀ tubeName, (after.waitingAt tubeName).entries =
    (before.waitingAt tubeName).entries.filter (· ≠ cli)
  shrinks : ∀ tubeName, job.home = some (.ready tubeName) →
    (after.heapAt (.ready tubeName)).length + 1 = (before.heapAt (.ready tubeName)).length
  nextDelayTickAt : after.nextDelayTickAt = before.nextDelayTickAt
  maxJobID : after.maxJobID = before.maxJobID
  tubes : ∀ tubeName, before.hasTube tubeName = true → after.hasTube tubeName = true

/-- The answer to a request that has been matched. -/
def matchedReservation (reqID : ReqID) (cli : CliPtr) (job : Job) : Reservation where
  requestId := reqID
  clientId := cli.cliID
  jobId := job.id
  status := .matched
  bodySize := job.bodySize
  body := job.body
  error := none

section Serve

variable {kinds : Kinds} {jsm : JSM} {nowSecs : Int64} {cli : CliPtr}

theorem ends_reserve_ready (jobsOk : JobsOk kinds jsm) (readyExact : kinds .ready) {entry : Nat}
    {tubeName : TubeName} (member : entry ∈ jsm.heapAt (.ready tubeName)) (nowSecs : Int64)
    (clientID : ClientID) :
    (reserve nowSecs (jsm.jobOf entry).id clientID jsm).Ends
      (fun _ after => Moved kinds (jsm.jobOf entry).id (jsm.jobOf entry)
          ((jsm.jobOf entry).reservedFor nowSecs clientID) jsm after ∧
        ∀ tubeName, jsm.hasTube tubeName = true → after.hasTube tubeName = true)
      (fun _ _ => False) False := by
  obtain ⟨recorded, home⟩ := jobsOk.recordOf_jobOf (.ready tubeName) readyExact member
  have isReady := ((Job.home_eq_ready_iff _ _).mp home).1
  have held := kinds.held_of_exact _ readyExact
  refine (ends_fromReadyToReserved jobsOk nowSecs clientID).mono ?_ ?_ fun impossible =>
    absurd held impossible
  · rintro value middle ⟨record, _, moved, tubes⟩
    have same : record = jsm.jobOf entry := Option.some.inj (moved.was.symm.trans recorded)
    subst same
    exact ⟨moved, tubes⟩
  · rintro _ middle ⟨_, fails⟩
    exact fails held _ recorded isReady

theorem ends_reserveFor (jobsOk : JobsOk kinds jsm) (clientsOk : ClientsOk jsm)
    (readyExact : kinds .ready) (registered : cli ∈ jsm.clients.entries)
    (waiting : (jsm.clientAt cli).isWaitingForResv = true) {entry : Nat} {tubeName : TubeName}
    (member : entry ∈ jsm.heapAt (.ready tubeName)) :
    (reserveFor nowSecs entry cli jsm).Ends
      (fun resv after => Served kinds nowSecs cli (jsm.jobOf entry) jsm after ∧
        resv = matchedReservation (jsm.clientAt cli).reqID cli (jsm.jobOf entry))
      (fun _ _ => False) False := by
  unfold reserveFor
  rw [readClient_bind, Prog.bind_apply, Prog.insist_apply, if_pos waiting, Outcome.ok_andThen,
    Prog.gets_bind]
  obtain ⟨_, middle, reserves, moved, tubes⟩ :=
    (ends_reserve_ready jobsOk readyExact member nowSecs cli.cliID).returns
  rw [Prog.bind_apply, Prog.attempt_of_ok reserves, Outcome.ok_andThen]
  dsimp only
  obtain ⟨sameClients, sameHeap, sameAt, _, sameQueues⟩ := moved.frame.fields
  have invMiddle := clientsOk.inv.of_clientView moved.frame.clients
  have waits : jsm.wanted cli = (middle.clientAt cli).watchedTubes := by
    simp [JSM.wanted, waiting, sameAt]
  have nodup : (middle.clientAt cli).watchedTubes.Nodup := by
    rw [sameAt]
    exact clientsOk.nodup cli registered waiting
  refine Prog.ends_bind (ends_unReserve invMiddle (sameClients ▸ registered) waits nodup) ?_
  rintro _ left ⟨invLeft, unreserved⟩
  have leftRegistered : cli ∈ left.clients.entries := by
    rw [unreserved.clients, sameClients]
    exact registered
  refine Prog.ends_bind (ends_updateClientTickAt invLeft leftRegistered
    fun _ => by rw [Function.update_self]) ?_
  rintro _ after ⟨invAfter, rescheduled⟩
  refine ⟨?_, rfl⟩
  have tickAt : after.tickAtFor cli = left.tickAtFor cli := rescheduled.tickAtFor
  have content : ∀ other, (after.clientAt other).content =
      if other = cli then
        { (jsm.clientAt cli).content with
          isWaitingForResv := false, resvDeadlineAt := maxTime, tickAt := after.tickAtFor cli }
      else (jsm.clientAt other).content := by
    intro other
    rw [rescheduled.content, tickAt]
    split
    next => simp only [unreserved.clientAt, if_true, sameAt, ClientResvEntry.content]
    next different => rw [unreserved.clientAt, if_neg different, sameAt]
  have clientFrame : ClientFrame middle after := unreserved.frame.trans rescheduled.frame
  exact
    { jobs := moved.inv.of_clientFrame clientFrame
      clients := by
        refine clientsOk.of_idle invAfter ?_ (fun other different => ?_) fun other inside => ?_
        · have own := content cli
          rw [if_pos rfl] at own
          exact congrArg ClientResvEntry.isWaitingForResv own
        · rw [content, if_neg different]
        · rw [← sameClients, ← unreserved.clients]
          exact rescheduled.subset other inside
      was := moved.was
      records := by
        rw [clientFrame.recordOf]
        exact moved.records
      content := content
      heap := by
        intro other
        rw [rescheduled.heap, tickAt, unreserved.clientHeap, sameHeap]
      entries := by
        rw [rescheduled.entries, tickAt, unreserved.clientHeap, unreserved.clients, sameHeap,
          sameClients]
      queues := by
        intro other
        rw [rescheduled.queues, unreserved.queues, sameQueues]
      shrinks := by
        intro other isHome
        rw [clientFrame.heapAt]
        exact moved.shrinks _ readyExact isHome (by simp [Job.reservedFor, Job.home])
      nextDelayTickAt := clientFrame.nextDelayTickAt.trans moved.frame.nextDelayTickAt
      maxJobID := clientFrame.maxJobID.trans moved.frame.maxJobID
      tubes := fun other present => clientFrame.tubes other (tubes other present) }

theorem waitQLen_apply {tubeName : TubeName} (present : jsm.hasTube tubeName = true) :
    waitQLen tubeName jsm = .ok (jsm.waitingAt tubeName).entries.length jsm := by
  unfold waitQLen
  rw [Prog.bind_apply, getByName_false_apply, if_pos present, Outcome.ok_andThen,
    Prog.gets_apply, ClientResvQueue.len_eq_length]

theorem dequeueFromWaitQ_apply {tubeName : TubeName} {first : CliPtr} {rest : List CliPtr}
    (queue : (jsm.waitingAt tubeName).entries = first :: rest) :
    dequeueFromWaitQ tubeName jsm = .ok first jsm := by
  have queued : first ∈ (jsm.waitingAt tubeName).entries := by
    rw [queue]
    exact List.mem_cons_self
  have present := jsm.hasTube_of_waiting tubeName queued
  unfold dequeueFromWaitQ
  rw [Prog.bind_apply, getByName_false_apply, if_pos present, Outcome.ok_andThen, Prog.gets_bind,
    ClientResvQueue.dequeue_eq, queue]
  rfl

theorem ClientsOk.waiting_of_queued (clientsOk : ClientsOk jsm) {tubeName : TubeName}
    (queued : cli ∈ (jsm.waitingAt tubeName).entries) :
    cli ∈ jsm.clients.entries ∧ (jsm.clientAt cli).isWaitingForResv = true ∧
      tubeName ∈ (jsm.clientAt cli).watchedTubes := by
  obtain ⟨registered, wanted⟩ := (clientsOk.inv.queued tubeName cli).mp queued
  unfold JSM.wanted at wanted
  split at wanted
  next waiting => exact ⟨registered, waiting, wanted⟩
  next => cases wanted

/-- `tryReserveJob` for a client that asks. -/
theorem ends_tryReserveJob_some {onOk : Nat → Reservation → JSM → Prop} {panics : Prop}
    {tubeName : TubeName} (queued : cli ∈ (jsm.waitingAt tubeName).entries)
    (serve : ∀ entry, (jsm.heapAt (.ready tubeName)).head? = some entry →
      (reserveFor nowSecs entry cli jsm).Ends (onOk entry) (fun _ _ => False) panics) :
    (tryReserveJob nowSecs tubeName (some cli) jsm).Ends
      (fun resv after => ∃ entry, (jsm.heapAt (.ready tubeName)).head? = some entry ∧
        onOk entry resv after)
      (fun error after => error = .noReservationFound ∧ after = jsm ∧
        jsm.heapAt (.ready tubeName) = [])
      panics := by
  have someWait : (jsm.waitingAt tubeName).entries.length ≠ 0 := by
    rw [Ne, List.length_eq_zero_iff]
    exact List.ne_nil_of_mem queued
  unfold tryReserveJob
  rw [Prog.bind_apply, waitQLen_apply (jsm.hasTube_of_waiting tubeName queued),
    Outcome.ok_andThen, Prog.bind_apply, Prog.require_apply, if_pos someWait, Outcome.ok_andThen,
    Prog.bind_apply, peekReadyJob, nextReadyJob, attempt_peekAt]
  cases head : (jsm.heapAt (.ready tubeName)).head? with
  | none => exact ⟨rfl, rfl, List.head?_eq_none_iff.mp head⟩
  | some entry =>
      exact (serve entry head).mono (fun _ _ isServed => ⟨entry, rfl, isServed⟩)
        (fun _ _ => False.elim) id

section FirstInLine

variable {tubeName : TubeName}

/-! `tryReserveJob` for the first client in the wait queue. -/

theorem tryReserveJob_of_nobody (present : jsm.hasTube tubeName = true)
    (nobody : (jsm.waitingAt tubeName).entries = []) :
    tryReserveJob nowSecs tubeName none jsm = .err .noReservationFound jsm := by
  unfold tryReserveJob
  rw [Prog.bind_apply, waitQLen_apply present, Outcome.ok_andThen, nobody]
  rfl

theorem tryReserveJob_of_queue {first : CliPtr} {rest : List CliPtr}
    (present : jsm.hasTube tubeName = true)
    (queue : (jsm.waitingAt tubeName).entries = first :: rest) :
    tryReserveJob nowSecs tubeName none jsm =
      (jsm.heapAt (.ready tubeName)).head?.elim (.err .noReservationFound jsm) fun entry =>
        reserveFor nowSecs entry first jsm := by
  unfold tryReserveJob
  rw [Prog.bind_apply, waitQLen_apply present, Outcome.ok_andThen, Prog.bind_apply,
    Prog.require_apply, queue, if_pos (by simp), Outcome.ok_andThen, Prog.bind_apply,
    peekReadyJob, nextReadyJob, attempt_peekAt]
  cases (jsm.heapAt (.ready tubeName)).head? with
  | none => rfl
  | some entry =>
      dsimp only [Outcome.ok_andThen]
      rw [Prog.bind_apply, matchClient, Prog.bind_apply,
        Prog.attempt_of_ok (dequeueFromWaitQ_apply queue)]
      rfl

end FirstInLine

/-! ## AppendReservation -/

/-- The entry is the first one of the first of the tubes that has any. -/
def JSM.FirstReady (jsm : JSM) (tubeNames : List TubeName) (entry : Nat) : Prop :=
  ∃ earlier tubeName later, tubeNames = earlier ++ tubeName :: later ∧
    (∀ other ∈ earlier, jsm.heapAt (.ready other) = []) ∧
    (jsm.heapAt (.ready tubeName)).head? = some entry

theorem JSM.FirstReady.cons {tubeName : TubeName} {tubeNames : List TubeName} {entry : Nat}
    (first : jsm.FirstReady tubeNames entry) (empty : jsm.heapAt (.ready tubeName) = []) :
    jsm.FirstReady (tubeName :: tubeNames) entry := by
  obtain ⟨earlier, place, later, rfl, allEmpty, head⟩ := first
  exact ⟨tubeName :: earlier, place, later, rfl, List.forall_mem_cons.mpr ⟨empty, allEmpty⟩, head⟩

theorem JSM.FirstReady.exists_tube {tubeNames : List TubeName} {entry : Nat}
    (first : jsm.FirstReady tubeNames entry) :
    ∃ tubeName ∈ tubeNames, (jsm.heapAt (.ready tubeName)).head? = some entry := by
  obtain ⟨earlier, tubeName, later, rfl, _, head⟩ := first
  exact ⟨tubeName, by simp, head⟩

theorem ends_firstMatch {onOk : Nat → Reservation → JSM → Prop} {panics : Prop}
    (tubeNames : List TubeName)
    (queued : ∀ tubeName ∈ tubeNames, cli ∈ (jsm.waitingAt tubeName).entries)
    (serve : ∀ tubeName ∈ tubeNames, ∀ entry,
      (jsm.heapAt (.ready tubeName)).head? = some entry →
      (reserveFor nowSecs entry cli jsm).Ends (onOk entry) (fun _ _ => False) panics) :
    (firstMatch nowSecs cli tubeNames jsm).Ends
      (fun result after =>
        (result = none ∧ after = jsm ∧ ∀ tubeName ∈ tubeNames, jsm.heapAt (.ready tubeName) = []) ∨
        ∃ entry resv, jsm.FirstReady tubeNames entry ∧ onOk entry resv after ∧ result = some resv)
      (fun _ _ => False) panics := by
  induction tubeNames with
  | nil => exact Or.inl ⟨rfl, rfl, by simp⟩
  | cons tubeName tubeNames ih =>
      unfold firstMatch
      refine Prog.ends_bind (Prog.ends_attempt (fun result after =>
        (result = .error .noReservationFound ∧ after = jsm ∧
          jsm.heapAt (.ready tubeName) = []) ∨
        ∃ entry resv, (jsm.heapAt (.ready tubeName)).head? = some entry ∧
          onOk entry resv after ∧ result = .ok resv)
        ((ends_tryReserveJob_some (queued tubeName List.mem_cons_self)
          (serve tubeName List.mem_cons_self)).mono ?_ ?_ id)) ?_
      · rintro resv after ⟨entry, head, isServed⟩
        exact Or.inr ⟨entry, resv, head, isServed, rfl⟩
      · rintro error after ⟨rfl, same, noJob⟩
        exact Or.inl ⟨rfl, same, noJob⟩
      rintro result after (⟨rfl, rfl, noJob⟩ | ⟨entry, resv, head, isServed, rfl⟩)
      · refine (ih (fun other member => queued other (List.mem_cons_of_mem _ member))
          fun other member => serve other (List.mem_cons_of_mem _ member)).mono ?_
          (fun _ _ => False.elim) id
        rintro result after (⟨isNone, same, noJobs⟩ | ⟨entry, resv, first, matching⟩)
        · exact Or.inl ⟨isNone, same, List.forall_mem_cons.mpr ⟨noJob, noJobs⟩⟩
        · exact Or.inr ⟨entry, resv, first.cons noJob, matching⟩
      · exact Or.inr ⟨entry, resv, ⟨[], tubeName, tubeNames, rfl, by simp, head⟩, isServed, rfl⟩

theorem minTime_le_right (first second : Int64) : minTime first second ≤ second := by
  unfold minTime
  split
  next less => exact Int64.le_of_lt less
  next => exact Int64.le_refl second

theorem JSM.tickAtFor_lt_maxTime (waiting : (jsm.clientAt cli).isWaitingForResv = true)
    (deadline : (jsm.clientAt cli).resvDeadlineAt < maxTime) : jsm.tickAtFor cli < maxTime := by
  unfold JSM.tickAtFor nextClientTickAt
  rw [if_pos waiting]
  exact Int64.lt_of_le_of_lt (minTime_le_right _ _) deadline

/-- What the waiting of a client rests on has not changed. -/
theorem ClientsOk.of_content {after : JSM} (clientsOk : ClientsOk jsm)
    (inv : ClientInv jsm.wanted after)
    (subset : ∀ other ∈ after.clients.entries, other ∈ jsm.clients.entries)
    (content : ∀ other, (after.clientAt other).watchedTubes = (jsm.clientAt other).watchedTubes ∧
      (after.clientAt other).resvDeadlineAt = (jsm.clientAt other).resvDeadlineAt ∧
      (after.clientAt other).isWaitingForResv = (jsm.clientAt other).isWaitingForResv) :
    ClientsOk after := by
  have wanted : after.wanted = jsm.wanted := by
    funext other
    simp only [JSM.wanted, (content other).1, (content other).2.2]
  refine ⟨wanted ▸ inv, fun other member waiting => ?_, fun other member waiting => ?_⟩
  · rw [(content other).2.2] at waiting
    rw [(content other).2.1]
    exact clientsOk.deadline other (subset other member) waiting
  · rw [(content other).2.2] at waiting
    rw [(content other).1]
    exact clientsOk.nodup other (subset other member) waiting

theorem ClientsOk.of_rescheduled {after : JSM} {tickAt : Int64} (clientsOk : ClientsOk jsm)
    (inv : ClientInv jsm.wanted after) (rescheduled : Rescheduled cli tickAt jsm after) :
    ClientsOk after := by
  apply clientsOk.of_content inv rescheduled.subset
  intro other
  have content := rescheduled.content other
  split at content
  next isCli =>
    subst other
    obtain ⟨watched, deadline, waiting, _⟩ := ClientResvEntry.fields_of_content_eq content
    exact ⟨watched, deadline, waiting⟩
  next =>
    obtain ⟨watched, deadline, waiting, _⟩ := ClientResvEntry.fields_of_content content
    exact ⟨watched, deadline, waiting⟩

theorem Asked.registered {reqID : ReqID} {watchedTubes : List TubeName} {resvDeadlineAt : Int64}
    {queues : TubeName → List CliPtr} {after : JSM}
    (asked : Asked cli reqID watchedTubes resvDeadlineAt queues jsm after) :
    cli ∈ after.clients.entries := by
  rw [asked.entries]
  split
  next old => exact old
  next => simp

theorem Asked.entry {reqID : ReqID} {watchedTubes : List TubeName} {resvDeadlineAt : Int64}
    {queues : TubeName → List CliPtr} {after : JSM}
    (asked : Asked cli reqID watchedTubes resvDeadlineAt queues jsm after) :
    (after.clientAt cli).watchedTubes = watchedTubes ∧
      (after.clientAt cli).resvDeadlineAt = resvDeadlineAt ∧
      (after.clientAt cli).isWaitingForResv = true ∧ (after.clientAt cli).reqID = reqID := by
  have content := asked.content cli
  rw [if_pos rfl] at content
  obtain ⟨watched, deadline, waiting, _, isReq⟩ := ClientResvEntry.fields_of_content_eq content
  exact ⟨watched, deadline, waiting, isReq⟩

/-- The state after a client has asked and has entered its wait queues. -/
theorem Asked.joined {reqID : ReqID} {watchedTubes : List TubeName} {resvDeadlineAt : Int64}
    {middle after : JSM} (clientsOk : ClientsOk jsm)
    (asked : Asked cli reqID watchedTubes resvDeadlineAt
      (fun tubeName => (jsm.waitingAt tubeName).entries) jsm middle)
    (inv : ClientInv (Function.update jsm.wanted cli []) middle)
    (bounded : resvDeadlineAt < maxTime) (nodup : watchedTubes.Nodup)
    (requeued : Requeued (middle.queuesWith cli watchedTubes) middle after) :
    Asked cli reqID watchedTubes resvDeadlineAt (jsm.queuesWith cli watchedTubes) jsm after ∧
      ClientsOk after := by
  have sameQueues : middle.queuesWith cli watchedTubes = jsm.queuesWith cli watchedTubes := by
    funext tubeName
    simp only [JSM.queuesWith, asked.queues]
  rw [sameQueues] at requeued
  have next : Asked cli reqID watchedTubes resvDeadlineAt (jsm.queuesWith cli watchedTubes)
      jsm after :=
    { idle := asked.idle
      entries := by rw [requeued.clients, asked.entries]
      content := by
        rw [requeued.clientAt]
        exact asked.content
      clientHeap := requeued.clientHeap.trans asked.clientHeap
      queues := requeued.queues
      frame := asked.frame.trans requeued.frame }
  obtain ⟨watched, deadline, waiting, _⟩ := next.entry
  have others : ∀ other, other ≠ cli →
      (after.clientAt other).content = (jsm.clientAt other).content := by
    intro other different
    rw [next.content, if_neg different]
  have wanted : after.wanted = Function.update jsm.wanted cli watchedTubes := by
    funext other
    rw [Function.update_apply]
    split
    next same =>
      subst other
      simp [JSM.wanted, waiting, watched]
    next different =>
      obtain ⟨sameWatched, _, sameWaiting, _⟩ :=
        ClientResvEntry.fields_of_content (others other different)
      simp only [JSM.wanted, sameWatched, sameWaiting]
  have old : ∀ other ∈ after.clients.entries, other ≠ cli → other ∈ jsm.clients.entries := by
    intro other member different
    rw [next.entries] at member
    split at member
    · exact member
    · exact (List.mem_append.mp member).resolve_right (by simpa using different)
  refine ⟨next, ?_, fun other member isWaiting => ?_, fun other member isWaiting => ?_⟩
  · rw [wanted]
    refine inv.requeued requeued fun tubeName other => ?_
    have queued := inv.queued tubeName other
    rw [asked.queues] at queued
    have registered := asked.registered
    unfold JSM.queuesWith
    rw [Function.update_apply] at queued ⊢
    by_cases same : other = cli
    · subst other
      rw [if_pos rfl] at queued ⊢
      have absent : cli ∉ (jsm.waitingAt tubeName).entries := by simp [queued]
      by_cases inTubes : tubeName ∈ watchedTubes <;> simp [inTubes, absent, registered]
    · rw [if_neg same] at queued ⊢
      by_cases inTubes : tubeName ∈ watchedTubes <;> simp [inTubes, same, queued]
  · by_cases same : other = cli
    · subst other
      rw [deadline]
      exact bounded
    · obtain ⟨_, sameDeadline, sameWaiting, _⟩ :=
        ClientResvEntry.fields_of_content (others other same)
      rw [sameDeadline]
      exact clientsOk.deadline other (old other member same) (sameWaiting ▸ isWaiting)
  · by_cases same : other = cli
    · subst other
      rw [watched]
      exact nodup
    · obtain ⟨sameWatched, _, sameWaiting, _⟩ :=
        ClientResvEntry.fields_of_content (others other same)
      rw [sameWatched]
      exact clientsOk.nodup other (old other member same) (sameWaiting ▸ isWaiting)

/-- What an `AppendReservation` that returns has done: the client has asked,
and was then either queued or served at once. -/
structure Appended (kinds : Kinds) (clientId : ClientID) (reqID : ReqID)
    (watchedTubes : List TubeName) (nowSecs resvDeadlineAt : Int64) (resv : Reservation)
    (cli : CliPtr) (before middle after : JSM) : Prop where
  cliID : cli.cliID = clientId
  nodup : watchedTubes.Nodup
  asked : Asked cli reqID watchedTubes resvDeadlineAt (before.queuesWith cli watchedTubes)
    before middle
  jobsMiddle : JobsOk kinds middle
  clientsMiddle : ClientsOk middle
  jobs : JobsOk kinds after
  clients : ClientsOk after
  outcome :
    (resv = emptyReservation cli reqID .queued ∧
      (∀ tubeName ∈ watchedTubes, before.heapAt (.ready tubeName) = []) ∧
      Rescheduled cli (middle.tickAtFor cli) middle after) ∨
    ∃ tubeName ∈ watchedTubes, ∃ entry,
      (before.heapAt (.ready tubeName)).head? = some entry ∧
      Served kinds nowSecs cli (before.jobOf entry) middle after ∧
      resv = matchedReservation reqID cli (before.jobOf entry)

theorem ends_appendReservation (jobsOk : JobsOk kinds jsm) (clientsOk : ClientsOk jsm)
    (readyExact : kinds .ready) (clientId : ClientID) (reqID : ReqID)
    (watchedTubes : List TubeName) {resvDeadlineAt : Int64}
    (bounded : nowSecs ≤ resvDeadlineAt → resvDeadlineAt ≤ nowSecs + maxTimeoutSecs →
      resvDeadlineAt < maxTime) :
    (appendReservation clientId reqID watchedTubes nowSecs resvDeadlineAt jsm).Ends
      (fun resv after => nowSecs ≤ resvDeadlineAt ∧ ∃ cli middle,
        Appended kinds clientId reqID watchedTubes nowSecs resvDeadlineAt resv cli jsm middle after)
      (fun error after => after = jsm ∧
        (error = .invalidResvTimeout ∧
          (resvDeadlineAt < nowSecs ∨ nowSecs + maxTimeoutSecs < resvDeadlineAt) ∨
        error = .clientIsWaitingForReservation ∧ ∃ cli ∈ jsm.clients.entries,
          cli.cliID = clientId ∧ (jsm.clientAt cli).isWaitingForResv = true))
      (¬ watchedTubes.Nodup) := by
  unfold appendReservation
  rw [Prog.bind_apply, Prog.require_apply]
  split
  swap
  next outOfRange => exact ⟨rfl, Or.inl ⟨rfl, Classical.not_not.mp outOfRange⟩⟩
  next inRange =>
  have fromNow : nowSecs ≤ resvDeadlineAt := by
    by_contra late
    exact inRange (Or.inl (Int64.not_le.mp late))
  have deadline : resvDeadlineAt < maxTime := by
    refine bounded fromNow ?_
    by_contra late
    exact inRange (Or.inr (Int64.not_le.mp late))
  rw [Outcome.ok_andThen]
  refine Prog.ends_bind ((ends_registerClient clientsOk.inv
    (fun cli _ idle => by simp [JSM.wanted, idle]) clientId reqID watchedTubes
    resvDeadlineAt).mono (fun _ _ holds => holds) ?_ False.elim) ?_
  · rintro error after ⟨rfl, rfl, waiting⟩
    exact ⟨rfl, Or.inr ⟨rfl, waiting⟩⟩
  rintro cli registered ⟨sameId, asked, inv⟩
  have absent : ∀ tubeName, ∀ other ∈ (registered.waitingAt tubeName).entries,
      other.cliID ≠ cli.cliID := by
    intro tubeName other queued same
    obtain ⟨member, wants⟩ := (inv.queued tubeName other).mp queued
    have isCli := registered.clients.eq_of_cliID_eq member asked.registered same
    rw [isCli, Function.update_self] at wants
    cases wants
  refine Prog.ends_bind ((ends_joinWaitQs watchedTubes absent).mono (fun _ _ holds => holds)
    (fun _ _ => False.elim) (fun holds => holds)) ?_
  rintro _ middle ⟨nodup, requeued⟩
  obtain ⟨askedMiddle, clientsMiddle⟩ :=
    asked.joined clientsOk inv deadline nodup requeued
  have jobsMiddle := jobsOk.of_clientFrame askedMiddle.frame
  obtain ⟨watched, isDeadline, waiting, isReq⟩ := askedMiddle.entry
  have queued : ∀ tubeName ∈ watchedTubes, cli ∈ (middle.waitingAt tubeName).entries := by
    intro tubeName member
    rw [askedMiddle.queues]
    simp [JSM.queuesWith, member]
  refine Prog.ends_bind ((ends_firstMatch watchedTubes queued
    fun tubeName _ entry head => ends_reserveFor jobsMiddle clientsMiddle readyExact
      askedMiddle.registered waiting (List.mem_of_head? head)).mono
    (fun _ _ holds => holds) (fun _ _ => False.elim) False.elim) ?_
  rw [askedMiddle.frame.heapAt, askedMiddle.frame.jobOf, isReq]
  rintro result after (⟨rfl, rfl, noJobs⟩ | ⟨entry, resv, first, ⟨served, rfl⟩, rfl⟩)
  · refine Prog.ends_bind ((ends_updateClientTickAt clientsMiddle.inv askedMiddle.registered
      fun late => absurd (JSM.tickAtFor_lt_maxTime waiting (isDeadline ▸ deadline)) late).mono
      (fun _ _ holds => holds) (fun _ _ => False.elim) False.elim) ?_
    rintro _ after ⟨invAfter, rescheduled⟩
    exact ⟨fromNow, cli, _,
      { cliID := sameId
        nodup := nodup
        asked := askedMiddle
        jobsMiddle := jobsMiddle
        clientsMiddle := clientsMiddle
        jobs := jobsMiddle.of_clientFrame rescheduled.frame
        clients := clientsMiddle.of_rescheduled invAfter rescheduled
        outcome := Or.inl ⟨rfl, noJobs, rescheduled⟩ }⟩
  · obtain ⟨tubeName, member, head⟩ := first.exists_tube
    rw [askedMiddle.frame.heapAt] at head
    exact ⟨fromNow, cli, middle,
      { cliID := sameId
        nodup := nodup
        asked := askedMiddle
        jobsMiddle := jobsMiddle
        clientsMiddle := clientsMiddle
        jobs := served.jobs
        clients := served.clients
        outcome := Or.inr ⟨tubeName, member, entry, head, served, rfl⟩ }⟩

end Serve

end Coolbeans
