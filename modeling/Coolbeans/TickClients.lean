import Coolbeans.TickReady

/-!
# The client stage of a tick

`tickClients` takes the clients whose clock has passed off the client heap, one
by one.  It answers a client whose request has timed out or whose deadline is
soon, releases the jobs whose reservation has expired, and puts the client back
on the heap with a new clock, which has not passed.
-/

namespace Coolbeans

open FiniteMap PositionHeap StatefulProgram

/-! ## Taking a client off the heap -/

theorem ends_clientHeapDequeue {wants : CliPtr → List TubeName} {jsm : JSM} {cli : CliPtr}
    (inv : ClientInv wants jsm) (head : jsm.clientHeap.head? = some cli) :
    (clientHeapDequeue jsm).Ends
      (fun taken after => taken = cli ∧ ClientInv wants after ∧ Dequeued cli jsm after)
      (fun _ _ => False) False := by
  have removed := removed_pop clientStore (clientResvLess jsm.clientAt) inv.tracked head
  have nonempty : jsm.clientHeapState.items ≠ [] := by
    intro empty
    have empty : jsm.clientHeap = [] := empty
    rw [empty] at head
    cases head
  have sorted := ordered_pop clientStore (compares_clientResvLess jsm.clientAt)
    jsm.clientHeapState inv.ordered nonempty
  rw [clientHeapDequeue_eq head]
  exact ⟨rfl, inv.dequeued removed sorted⟩

theorem Dequeued.clientsOk {cli : CliPtr} {before after : JSM} (clientsOk : ClientsOk before)
    (inv : ClientInv before.wanted after) (dequeued : Dequeued cli before after) :
    ClientsOk after := by
  refine clientsOk.of_content inv (fun other member => dequeued.clients ▸ member) fun other => ?_
  obtain ⟨watched, deadline, waiting, _⟩ :=
    ClientResvEntry.fields_of_content (dequeued.content other)
  exact ⟨watched, deadline, waiting⟩

/-! ## Attending to a client -/

/-- The entry of a client whose request has been answered. -/
def ClientResvEntry.idle (record : ClientResvEntry) : ClientResvEntry :=
  { record with isWaitingForResv := false, resvDeadlineAt := maxTime }

/-- The client has been given the answers, of which there is at most one; the
client containers are otherwise unchanged. -/
structure Attended (cli : CliPtr) (resvs : List Reservation) (before after : JSM) : Prop where
  clients : ClientsOk after
  sameClients : after.clients = before.clients
  sameHeap : after.clientHeap = before.clientHeap
  others : ∀ other, other ≠ cli → after.clientAt other = before.clientAt other
  own : after.clientAt cli =
    if resvs = [] then before.clientAt cli else (before.clientAt cli).idle
  wasWaiting : resvs ≠ [] → (before.clientAt cli).isWaitingForResv = true ∧
    ∃ status, (status = .timeout ∨ status = .deadlineSoon) ∧
      resvs = [emptyReservation cli (before.clientAt cli).reqID status]
  queues : ∀ tubeName, (after.waitingAt tubeName).entries =
    if resvs = [] then (before.waitingAt tubeName).entries
    else (before.waitingAt tubeName).entries.filter (· ≠ cli)

section Attend

variable {kinds : Kinds} {nowSecs : Int64} {cli : CliPtr} {jsm : JSM}

theorem Attended.nil {after : JSM} (clientsOk : ClientsOk jsm) (frame : JobFrame jsm after) :
    Attended cli [] jsm after := by
  obtain ⟨clients, clientHeap, clientAt, _, queues⟩ := frame.fields
  exact
    { clients := clientsOk.of_clientView frame.clients
      sameClients := clients
      sameHeap := clientHeap
      others := fun other _ => by rw [clientAt]
      own := by rw [clientAt, if_pos rfl]
      wasWaiting := fun impossible => absurd rfl impossible
      queues := fun tubeName => by rw [queues, if_pos rfl] }

theorem Attended.trans {middle after : JSM} {resvs later : List Reservation}
    (first : Attended cli resvs jsm middle) (second : Attended cli later middle after) :
    Attended cli (resvs ++ later) jsm after := by
  -- a client that has been answered no longer waits for another answer
  have once : resvs ≠ [] → later = [] := by
    intro answered
    by_contra again
    have waiting := (second.wasWaiting again).1
    rw [first.own, if_neg answered] at waiting
    cases waiting
  have own := second.own
  have queues := second.queues
  rw [first.own] at own
  refine ⟨second.clients, second.sameClients.trans first.sameClients,
    second.sameHeap.trans first.sameHeap, fun other different => ?_, ?_, ?_, fun tubeName => ?_⟩
  · rw [second.others other different, first.others other different]
  · by_cases answered : resvs = []
    · simpa [answered] using own
    · simpa [answered, once answered] using own
  · intro either
    by_cases answered : resvs = []
    · subst resvs
      have waiting := second.wasWaiting either
      rw [first.own, if_pos rfl] at waiting
      exact waiting
    · rw [once answered, List.append_nil]
      exact first.wasWaiting answered
  · rw [queues, first.queues]
    by_cases answered : resvs = []
    · simp [answered]
    · simp [answered, once answered]

theorem ends_answer (clientsOk : ClientsOk jsm) (registered : cli ∈ jsm.clients.entries)
    (waiting : (jsm.clientAt cli).isWaitingForResv = true) {status : ReservationStatus}
    (unmatched : status = .timeout ∨ status = .deadlineSoon) :
    (unReserve cli jsm).Ends
      (fun _ after => ClientFrame jsm after ∧
        Attended cli [emptyReservation cli (jsm.clientAt cli).reqID status] jsm after)
      (fun _ _ => False) False := by
  have waits : jsm.wanted cli = (jsm.clientAt cli).watchedTubes := by
    simp [JSM.wanted, waiting]
  refine (ends_unReserve clientsOk.inv registered waits
    (clientsOk.nodup cli registered waiting)).mono ?_ (fun _ _ => False.elim) False.elim
  rintro _ after ⟨inv, unreserved⟩
  have own : after.clientAt cli = (jsm.clientAt cli).idle := by
    rw [unreserved.clientAt, if_pos rfl]
    rfl
  have others : ∀ other, other ≠ cli → after.clientAt other = jsm.clientAt other := by
    intro other different
    rw [unreserved.clientAt, if_neg different]
  refine ⟨unreserved.frame, ?_⟩
  exact
    { clients := clientsOk.of_idle inv (by rw [own]; rfl)
        (fun other different => by rw [others other different])
        (fun other member => unreserved.clients ▸ member)
      sameClients := unreserved.clients
      sameHeap := unreserved.clientHeap
      others := others
      own := by rw [own, if_neg (by simp)]
      wasWaiting := fun _ => ⟨waiting, status, unmatched, rfl⟩
      queues := fun tubeName => by rw [unreserved.queues, if_neg (by simp)] }

/-- The answer to a client whose request has timed out. -/
def timeoutAnswer (nowSecs : Int64) (cli : CliPtr) (record : ClientResvEntry) :
    List Reservation :=
  if record.isWaitingForResv = true ∧ record.resvDeadlineAt < nowSecs then
    [emptyReservation cli record.reqID .timeout]
  else []

theorem ends_tickClientDeadline (clientsOk : ClientsOk jsm)
    (registered : cli ∈ jsm.clients.entries) (result : List Reservation) :
    (tickClientDeadline nowSecs cli result jsm).Ends
      (fun resvs after => resvs = result ++ timeoutAnswer nowSecs cli (jsm.clientAt cli) ∧
        ClientFrame jsm after ∧
        Attended cli (timeoutAnswer nowSecs cli (jsm.clientAt cli)) jsm after ∧
        ((after.clientAt cli).isWaitingForResv = true →
          nowSecs ≤ (after.clientAt cli).resvDeadlineAt))
      (fun _ _ => False) False := by
  unfold tickClientDeadline timeoutAnswer
  rw [readClient_bind]
  by_cases late : (jsm.clientAt cli).isWaitingForResv = true ∧
      (jsm.clientAt cli).resvDeadlineAt < nowSecs
  · rw [if_pos late, if_pos late]
    refine Prog.ends_bind (ends_answer clientsOk registered late.1 (Or.inl rfl)) ?_
    rintro _ after ⟨frame, attended⟩
    refine ⟨rfl, frame, attended, fun waiting => ?_⟩
    rw [attended.own, if_neg (by simp)] at waiting
    cases waiting
  · rw [if_neg late, if_neg late]
    refine ⟨by simp, .refl jsm, .nil clientsOk (.refl jsm), fun waiting => ?_⟩
    exact Int64.not_lt.mp fun early => late ⟨waiting, early⟩

/-! ## The jobs of a client -/

/-- A job whose reservation by one of the clients has expired is released. -/
def Job.expire (nowSecs : Int64) (clientIDs : List ClientID) (job : Job) : Job :=
  if job.state = .reserved ∧ job.reservedBy ∈ clientIDs ∧ job.expiresAt < nowSecs then
    job.released 0 false
  else job

theorem Job.expire_of_expired {clientIDs : List ClientID} {job : Job}
    (isReserved : job.state = .reserved) (owner : job.reservedBy ∈ clientIDs)
    (expired : job.expiresAt < nowSecs) : job.expire nowSecs clientIDs = job.released 0 false :=
  if_pos ⟨isReserved, owner, expired⟩

theorem Job.expire_released (clientIDs : List ClientID) (job : Job) :
    (job.released 0 false).expire nowSecs clientIDs = job.released 0 false := by
  apply if_neg
  simp [Job.released]

theorem Job.expire_append (first second : List ClientID) (job : Job) :
    (job.expire nowSecs first).expire nowSecs second = job.expire nowSecs (first ++ second) := by
  by_cases isFirst : job.state = .reserved ∧ job.reservedBy ∈ first ∧ job.expiresAt < nowSecs
  · obtain ⟨isReserved, owner, expired⟩ := isFirst
    rw [Job.expire_of_expired isReserved owner expired, Job.expire_released,
      Job.expire_of_expired isReserved (List.mem_append_left second owner) expired]
  · rw [Job.expire.eq_1 nowSecs first, if_neg isFirst]
    unfold Job.expire
    congr 1
    rw [List.mem_append]
    apply propext
    tauto

/-- The answer to a waiting client one of whose deadlines is soon. -/
def soonAnswer (nowSecs : Int64) (cli : CliPtr) (record : ClientResvEntry)
    (firstExpiry : Option Int64) : List Reservation :=
  match firstExpiry with
  | none => []
  | some expiresAt =>
      if record.isWaitingForResv = true ∧ expiresAt - 1 < nowSecs then
        [emptyReservation cli record.reqID .deadlineSoon]
      else []

/-- Some reserved jobs have been released; the others are as they were. -/
def ReleasedSome (before after : JSM) : Prop :=
  ∀ id, after.recordOf id = before.recordOf id ∨
    ∃ record, before.recordOf id = some record ∧ record.state = .reserved ∧
      after.recordOf id = some (record.released 0 false)

theorem ReleasedSome.of_clientFrame {after : JSM} (frame : ClientFrame jsm after) :
    ReleasedSome jsm after :=
  fun id => Or.inl (by rw [frame.recordOf])

theorem ReleasedSome.trans {middle after : JSM} (first : ReleasedSome jsm middle)
    (second : ReleasedSome middle after) : ReleasedSome jsm after := by
  intro id
  rcases second id with same | ⟨record, recorded, isReserved, released⟩
  · rw [same]
    exact first id
  · rcases first id with same | ⟨old, _, _, oldReleased⟩
    · rw [same] at recorded
      exact Or.inr ⟨record, recorded, isReserved, released⟩
    · rw [oldReleased] at recorded
      rw [← Option.some.inj recorded] at isReserved
      simp [Job.released] at isReserved

theorem ReleasedSome.of_moved {id : JobID} {record : Job} {after : JSM}
    (isReserved : record.state = .reserved)
    (moved : Moved kinds id record (record.released 0 false) jsm after) :
    ReleasedSome jsm after := by
  intro other
  rw [moved.records]
  split
  next same =>
    rw [same]
    exact Or.inr ⟨record, moved.was, isReserved, rfl⟩
  next => exact Or.inl rfl

/-- What the inner loop has done when it ends. -/
structure JobsTicked (kinds : Kinds) (nowSecs : Int64) (cli : CliPtr)
    (resvs : List Reservation) (before after : JSM) : Prop where
  jobs : JobsOk kinds after
  attended : Attended cli resvs before after
  answer : resvs =
    soonAnswer nowSecs cli (before.clientAt cli) (after.firstExpiry cli.cliID)
  expiry : ∀ expiresAt, after.firstExpiry cli.cliID = some expiresAt → nowSecs ≤ expiresAt ∧
    ((after.clientAt cli).isWaitingForResv = true → nowSecs ≤ expiresAt - 1)
  records : kinds .reserved → ∀ id,
    after.recordOf id = (before.recordOf id).map (Job.expire nowSecs [cli.cliID])
  released : ReleasedSome before after
  nextDelayTickAt : after.nextDelayTickAt = before.nextDelayTickAt
  maxJobID : after.maxJobID = before.maxJobID

theorem ClientFrame.jobsTicked_records {after : JSM} (frame : ClientFrame jsm after)
    (unexpired : ∀ id record, jsm.recordOf id = some record →
      record.home = some (.reserved cli.cliID) → ¬ record.expiresAt < nowSecs) (id : JobID) :
    after.recordOf id = (jsm.recordOf id).map (Job.expire nowSecs [cli.cliID]) := by
  rw [frame.recordOf]
  cases recorded : jsm.recordOf id with
  | none => rfl
  | some record =>
      rw [Option.map_some, Job.expire, if_neg]
      rintro ⟨isReserved, owner, expired⟩
      exact unexpired id record recorded ((Job.home_eq_reserved_iff _ _).mpr
        ⟨isReserved, List.mem_singleton.mp owner⟩) expired

theorem JobsTicked.of_clientFrame {after : JSM} {extra : List Reservation}
    (jobs : JobsOk kinds jsm) (frame : ClientFrame jsm after)
    (attended : Attended cli extra jsm after)
    (answer : extra = soonAnswer nowSecs cli (jsm.clientAt cli) (jsm.firstExpiry cli.cliID))
    (expiry : ∀ expiresAt, jsm.firstExpiry cli.cliID = some expiresAt → nowSecs ≤ expiresAt ∧
      ((after.clientAt cli).isWaitingForResv = true → nowSecs ≤ expiresAt - 1))
    (unexpired : kinds .reserved → ∀ id record, jsm.recordOf id = some record →
      record.home = some (.reserved cli.cliID) → ¬ record.expiresAt < nowSecs) :
    JobsTicked kinds nowSecs cli extra jsm after where
  jobs := jobs.of_clientFrame frame
  attended := attended
  answer := by
    rw [frame.firstExpiry]
    exact answer
  expiry := by
    rw [frame.firstExpiry]
    exact expiry
  records := fun reservedExact => frame.jobsTicked_records (unexpired reservedExact)
  released := .of_clientFrame frame
  nextDelayTickAt := frame.nextDelayTickAt
  maxJobID := frame.maxJobID

theorem JobsTicked.of_released {id : JobID} {record : Job} {middle after : JSM}
    {extra : List Reservation} (ticked : JobsTicked kinds nowSecs cli extra middle after)
    (clientsOk : ClientsOk jsm) (wasReserved : record.state = .reserved)
    (moved : Moved kinds id record (record.released 0 false) jsm middle)
    (expired : kinds .reserved → record.reservedBy = cli.cliID ∧ record.expiresAt < nowSecs) :
    JobsTicked kinds nowSecs cli extra jsm after := by
  obtain ⟨_, _, clientAt, _⟩ := moved.frame.fields
  exact
    { jobs := ticked.jobs
      attended := (Attended.nil clientsOk moved.frame).trans ticked.attended
      answer := by
        rw [← clientAt]
        exact ticked.answer
      expiry := ticked.expiry
      records := by
        intro reservedExact other
        obtain ⟨owner, expired⟩ := expired reservedExact
        rw [ticked.records reservedExact, moved.records]
        split
        next same =>
          rw [same, moved.was, Option.map_some, Option.map_some, Job.expire_released,
            Job.expire_of_expired wasReserved (List.mem_singleton.mpr owner) expired]
        next => rfl
      released := (ReleasedSome.of_moved wasReserved moved).trans ticked.released
      nextDelayTickAt := ticked.nextDelayTickAt.trans moved.frame.nextDelayTickAt
      maxJobID := ticked.maxJobID.trans moved.frame.maxJobID }

/-- The release of the first job of a client fails only if the reserved heaps are not exact. -/
theorem ends_release_head {entry : Nat} (jobs : JobsOk kinds jsm)
    (head : (jsm.heapAt (.reserved cli.cliID)).head? = some entry) :
    (release (jsm.jobOf entry).id cli.cliID jsm).Ends
      (fun _ middle => ∃ record, record.state = .reserved ∧
        Moved kinds (jsm.jobOf entry).id record (record.released 0 false) jsm middle ∧
        (kinds .reserved → record = jsm.jobOf entry ∧
          record.home = some (.reserved cli.cliID)))
      (fun _ _ => ¬ kinds .reserved) (¬ kinds .reserved) := by
  have member := List.mem_of_head? head
  refine (ends_fromReservedToReady jobs cli.cliID 0 false).mono ?_ ?_ fun unheld isExact =>
    unheld (kinds.held_of_exact _ isExact)
  · rintro _ middle ⟨record, owned, moved⟩
    refine ⟨record, owned.1, moved, fun reservedExact => ?_⟩
    obtain ⟨recorded, home⟩ := jobs.recordOf_jobOf (.reserved cli.cliID) reservedExact member
    have same : record = jsm.jobOf entry := Option.some.inj (moved.was.symm.trans recorded)
    exact ⟨same, same ▸ home⟩
  · rintro _ middle ⟨_, fails⟩ reservedExact
    obtain ⟨recorded, home⟩ := jobs.recordOf_jobOf (.reserved cli.cliID) reservedExact member
    obtain ⟨isReserved, owner⟩ := (Job.home_eq_reserved_iff _ _).mp home
    exact fails (kinds.held_of_exact _ reservedExact) _ recorded ⟨isReserved, Or.inr owner⟩

theorem ends_tickClientJobs (jobs : JobsOk kinds jsm) (clientsOk : ClientsOk jsm)
    (registered : cli ∈ jsm.clients.entries) (rounds : Nat) (result : List Reservation)
    (enough : kinds .reserved → (jsm.heapAt (.reserved cli.cliID)).length +
      (if (jsm.clientAt cli).isWaitingForResv then 1 else 0) < rounds) :
    (tickClientJobs nowSecs cli rounds result jsm).Ends
      (fun resvs after => ∃ extra, resvs = result ++ extra ∧
        JobsTicked kinds nowSecs cli extra jsm after)
      (fun _ _ => False) (¬ kinds .reserved) := by
  induction rounds generalizing jsm with
  | zero => exact fun reservedExact => absurd (enough reservedExact) (by omega)
  | succ rounds induction =>
  cases head : (jsm.heapAt (.reserved cli.cliID)).head? with
  | none =>
      have noExpiry : jsm.firstExpiry cli.cliID = none := by simp [JSM.firstExpiry, head]
      rw [tickClientJobs_of_none head]
      refine ⟨[], by simp, .of_clientFrame jobs (.refl jsm) (.nil clientsOk (.refl jsm)) ?_ ?_ ?_⟩
      · rw [noExpiry]
        rfl
      · rw [noExpiry]
        exact fun _ impossible => by cases impossible
      · intro reservedExact id record recorded home
        exact absurd home (jobs.home_ne_of_empty (.reserved cli.cliID) reservedExact
          (List.head?_eq_none_iff.mp head) recorded)
  | some entry =>
  have firstExpiry : jsm.firstExpiry cli.cliID = some (jsm.jobOf entry).expiresAt := by
    simp [JSM.firstExpiry, head]
  by_cases expired : (jsm.jobOf entry).expiresAt < nowSecs
  · rw [tickClientJobs_of_expired head expired]
    refine Prog.ends_bind (Prog.ends_orCrash _ (ends_release_head jobs head)) ?_
    rintro _ middle ⟨record, wasReserved, moved, isHead⟩
    obtain ⟨clients, _, clientAt, _⟩ := moved.frame.fields
    refine (induction moved.inv (clientsOk.of_clientView moved.frame.clients) (clients ▸ registered)
      fun reservedExact => ?_).mono ?_ (fun _ _ => False.elim) fun holds => holds
    · obtain ⟨rfl, home⟩ := isHead reservedExact
      have shorter := moved.shrinks (.reserved cli.cliID) reservedExact home
        (by simp [Job.home, Job.released])
      have bound := enough reservedExact
      rw [clientAt]
      omega
    · rintro resvs after ⟨extra, isResvs, ticked⟩
      refine ⟨extra, isResvs, ticked.of_released clientsOk wasReserved moved ?_⟩
      intro reservedExact
      obtain ⟨rfl, home⟩ := isHead reservedExact
      exact ⟨((Job.home_eq_reserved_iff _ _).mp home).2, expired⟩
  have unexpired : kinds .reserved → ∀ id record, jsm.recordOf id = some record →
      record.home = some (.reserved cli.cliID) → ¬ record.expiresAt < nowSecs := by
    intro reservedExact id record recorded home early
    have least := HeapKey.expiresAt_le_of_sortKey_le
      (jobs.head_le (.reserved cli.cliID) reservedExact head recorded home)
    exact expired (Int64.lt_of_le_of_lt least early)
  by_cases soon : (jsm.jobOf entry).expiresAt - 1 < nowSecs ∧
      (jsm.clientAt cli).isWaitingForResv = true
  · rw [tickClientJobs_of_soon head expired soon]
    refine Prog.ends_bind ((ends_answer clientsOk registered soon.2 (Or.inr rfl)).mono
      (fun _ _ holds => holds) (fun _ _ => False.elim) False.elim) ?_
    rintro _ after ⟨frame, attended⟩
    have idle : (after.clientAt cli).isWaitingForResv = false := by
      rw [attended.own, if_neg (by simp)]
      rfl
    cases rounds with
    | zero =>
        intro reservedExact
        have := enough reservedExact
        rw [if_pos soon.2] at this
        omega
    | succ rounds =>
        rw [tickClientJobs_of_quiet (by rw [frame.heapAt]; exact head)
          (by rw [frame.jobOf]; exact expired) (by simp [idle])]
        refine ⟨_, rfl, .of_clientFrame jobs frame attended ?_ ?_ unexpired⟩
        · rw [firstExpiry, soonAnswer, if_pos ⟨soon.2, soon.1⟩]
        · rw [firstExpiry, idle]
          rintro _ same
          cases same
          exact ⟨Int64.not_lt.mp expired, fun waiting => by cases waiting⟩
  · rw [tickClientJobs_of_quiet head expired soon]
    refine ⟨[], by simp, .of_clientFrame jobs (.refl jsm) (.nil clientsOk (.refl jsm)) ?_ ?_
      unexpired⟩
    · rw [firstExpiry, soonAnswer, if_neg]
      exact fun holds => soon ⟨holds.2, holds.1⟩
    · rw [firstExpiry]
      rintro _ same
      cases same
      exact ⟨Int64.not_lt.mp expired, fun waiting => Int64.not_lt.mp fun early =>
        soon ⟨early, waiting⟩⟩

/-! ## One client -/

theorem le_minTime {clock first second : Int64} (leFirst : clock ≤ first)
    (leSecond : clock ≤ second) : clock ≤ minTime first second := by
  unfold minTime
  split
  · exact leFirst
  · exact leSecond

theorem le_maxTime (clock : Int64) : clock ≤ maxTime :=
  Int64.le_maxValue clock

/-- A client with nothing that is overdue has a clock that has not passed. -/
theorem le_nextClientTickAt {record : ClientResvEntry} {firstExpiry : Option Int64}
    (deadline : record.isWaitingForResv = true → nowSecs ≤ record.resvDeadlineAt)
    (expiry : ∀ expiresAt, firstExpiry = some expiresAt → nowSecs ≤ expiresAt ∧
      (record.isWaitingForResv = true → nowSecs ≤ expiresAt - 1)) :
    nowSecs ≤ nextClientTickAt record firstExpiry := by
  unfold nextClientTickAt
  cases firstExpiry with
  | none =>
      dsimp only
      split
      next waiting => exact le_minTime (le_maxTime nowSecs) (deadline waiting)
      next => exact le_maxTime nowSecs
  | some expiresAt =>
      obtain ⟨unexpired, notSoon⟩ := expiry expiresAt rfl
      dsimp only
      split
      next waiting =>
        exact le_minTime (le_minTime (le_maxTime nowSecs) (notSoon waiting)) (deadline waiting)
      next => exact le_minTime (le_maxTime nowSecs) unexpired

/-- The answer to a client that is attended to. -/
def clientAnswer (nowSecs : Int64) (cli : CliPtr) (record : ClientResvEntry)
    (firstExpiry : Option Int64) : List Reservation :=
  if timeoutAnswer nowSecs cli record = [] then soonAnswer nowSecs cli record firstExpiry
  else timeoutAnswer nowSecs cli record

/-- What one round of the outer loop does to its client. -/
structure TickedClient (kinds : Kinds) (nowSecs : Int64) (cli : CliPtr)
    (resvs : List Reservation) (before after : JSM) : Prop where
  jobs : JobsOk kinds after
  clients : ClientsOk after
  answer : resvs = clientAnswer nowSecs cli (before.clientAt cli) (after.firstExpiry cli.cliID)
  answered : resvs ≠ [] → (before.clientAt cli).isWaitingForResv = true ∧
    ∃ status, (status = .timeout ∨ status = .deadlineSoon) ∧
      resvs = [emptyReservation cli (before.clientAt cli).reqID status]
  entries : after.clients.entries = before.clients.entries
  own : (after.clientAt cli).content =
    { (if resvs = [] then before.clientAt cli else (before.clientAt cli).idle).content with
      tickAt := after.tickAtFor cli }
  others : ∀ other, other ≠ cli →
    (after.clientAt other).content = (before.clientAt other).content
  heap : ∀ other, other ∈ after.clientHeap ↔
    if other = cli then after.tickAtFor cli < maxTime else other ∈ before.clientHeap
  late : nowSecs ≤ after.tickAtFor cli
  queues : ∀ tubeName, (after.waitingAt tubeName).entries =
    if resvs = [] then (before.waitingAt tubeName).entries
    else (before.waitingAt tubeName).entries.filter (· ≠ cli)
  records : kinds .reserved → ∀ id,
    after.recordOf id = (before.recordOf id).map (Job.expire nowSecs [cli.cliID])
  released : ReleasedSome before after
  nextDelayTickAt : after.nextDelayTickAt = before.nextDelayTickAt
  maxJobID : after.maxJobID = before.maxJobID

theorem soonAnswer_idle (record : ClientResvEntry) (firstExpiry : Option Int64) :
    soonAnswer nowSecs cli record.idle firstExpiry = [] := by
  unfold soonAnswer
  split <;> simp [ClientResvEntry.idle]

theorem ends_tickClient (jobs : JobsOk kinds jsm) (clientsOk : ClientsOk jsm)
    (registered : cli ∈ jsm.clients.entries) (offHeap : cli ∉ jsm.clientHeap)
    (result : List Reservation) :
    (tickClient nowSecs cli result jsm).Ends
      (fun resvs after => ∃ extra, resvs = result ++ extra ∧
        TickedClient kinds nowSecs cli extra jsm after)
      (fun _ _ => False) (¬ kinds .reserved) := by
  unfold tickClient
  refine Prog.ends_bind ((ends_tickClientDeadline clientsOk registered result).mono
    (fun _ _ holds => holds) (fun _ _ => False.elim) False.elim) ?_
  rintro _ timed ⟨rfl, timedFrame, timedOut, notLate⟩
  rw [Prog.gets_bind]
  refine Prog.ends_bind ((ends_tickClientJobs (jobs.of_clientFrame timedFrame) timedOut.clients
    (timedOut.sameClients ▸ registered) _ _ fun _ => ?_).mono (fun _ _ holds => holds)
    (fun _ _ => False.elim) fun holds => holds) ?_
  · split <;> omega
  rintro _ left ⟨soon, rfl, ticked⟩
  have attended := timedOut.trans ticked.attended
  have leftRegistered : cli ∈ left.clients.entries := by
    rw [attended.sameClients]
    exact registered
  have kept : ¬ left.tickAtFor cli < maxTime → left.wanted cli = [] := by
    intro never
    unfold JSM.wanted
    refine if_neg fun waiting => never ?_
    exact JSM.tickAtFor_lt_maxTime waiting
      (attended.clients.deadline cli leftRegistered waiting)
  refine Prog.ends_bind ((ends_updateClientTickAt attended.clients.inv leftRegistered kept).mono
    (fun _ _ holds => holds) (fun _ _ => False.elim) False.elim) ?_
  rintro _ after ⟨invAfter, rescheduled⟩
  have tickAt := rescheduled.tickAtFor
  have firstExpiry := congrFun rescheduled.frame.firstExpiry cli.cliID
  refine ⟨_, List.append_assoc result _ soon, ?_⟩
  exact
    { jobs := ticked.jobs.of_clientFrame rescheduled.frame
      clients := attended.clients.of_rescheduled invAfter rescheduled
      answer := by
        rw [ticked.answer, timedOut.own, clientAnswer, firstExpiry]
        by_cases onTime : timeoutAnswer nowSecs cli (jsm.clientAt cli) = []
        · rw [if_pos onTime, if_pos onTime, onTime, List.nil_append]
        · rw [if_neg onTime, if_neg onTime, soonAnswer_idle, List.append_nil]
      answered := attended.wasWaiting
      entries := by
        rw [rescheduled.entries, if_pos, attended.sameClients]
        right
        rw [attended.sameHeap]
        exact offHeap
      own := by
        rw [rescheduled.content, if_pos rfl, attended.own, tickAt]
      others := by
        intro other different
        rw [rescheduled.content, if_neg different, attended.others other different]
      heap := by
        intro other
        rw [rescheduled.heap, tickAt, attended.sameHeap]
      late := by
        rw [tickAt]
        refine le_nextClientTickAt (fun waiting => ?_) ticked.expiry
        by_cases quiet : soon = []
        · have own := ticked.attended.own
          rw [if_pos quiet] at own
          rw [own] at waiting ⊢
          exact notLate waiting
        · rw [ticked.attended.own, if_neg quiet] at waiting
          cases waiting
      queues := by
        intro tubeName
        rw [rescheduled.queues]
        exact attended.queues tubeName
      records := by
        intro reservedExact id
        rw [rescheduled.frame.recordOf, ticked.records reservedExact, timedFrame.recordOf]
      released := ((ReleasedSome.of_clientFrame timedFrame).trans ticked.released).trans
        (.of_clientFrame rescheduled.frame)
      nextDelayTickAt := rescheduled.frame.nextDelayTickAt.trans
        (ticked.nextDelayTickAt.trans timedFrame.nextDelayTickAt)
      maxJobID := rescheduled.frame.maxJobID.trans
        (ticked.maxJobID.trans timedFrame.maxJobID) }

end Attend

end Coolbeans
