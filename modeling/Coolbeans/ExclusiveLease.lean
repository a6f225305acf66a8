import Coolbeans.ClientClocks

/-!
# A reservation is an exclusive lease

A matched reservation starts a lease.  The lease follows the history: its
owner renews it with a touch and ends it with a delete, a release or a bury,
and a tick past its expiry ends it.  As long as it lasts, the job is the
owner's, and nobody else gets it or acts on it.
-/

namespace Coolbeans

open FiniteMap PositionHeap StatefulProgram

/-- A lease on a job. -/
structure Lease where
  jobID : JobID
  clientID : ClientID
  ttr : Int64
  expiresAt : Int64
  deriving DecidableEq, Repr

/-- What an event makes of a lease. -/
def Lease.after (lease : Lease) : Op × Answer → Option Lease
  | (.delete jobID clientID, .ok _) | (.release jobID clientID, .ok _)
  | (.releaseWith _ jobID clientID _ _, .ok _) | (.bury _ jobID _ clientID, .ok _) =>
      if jobID = lease.jobID ∧ clientID = lease.clientID then none else some lease
  | (.touch nowSeconds jobID clientID, .ok _) =>
      if jobID = lease.jobID ∧ clientID = lease.clientID then
        some { lease with expiresAt := nowSeconds + lease.ttr }
      else some lease
  | (.tick nowSecs _, _) => if lease.expiresAt < nowSecs then none else some lease
  | _ => some lease

/-- What a history makes of a lease; none if it has ended. -/
def Lease.afterAll (lease : Lease) (events : List (Op × Answer)) : Option Lease :=
  events.foldl (fun current event => current.bind (·.after event)) (some lease)

/-- The job is reserved for the owner of the lease. -/
def Lease.Holds (lease : Lease) (jsm : JSM) : Prop :=
  ∃ record, jsm.recordOf lease.jobID = some record ∧ record.state = .reserved ∧
    record.reservedBy = lease.clientID ∧ record.ttr = lease.ttr ∧
    record.expiresAt = lease.expiresAt

/-- The matched reservations of an answer. -/
def Answer.matches : Answer → List Reservation
  | .ok (.reservation resv) => [resv].filter (·.status = .matched)
  | .ok (.reservations resvs) => resvs.filter (·.status = .matched)
  | _ => []

/-- The clients give their ids, and no reservation expires at the end of time. -/
structure Leasable (jsm : JSM) (op : Op) : Prop where
  named : NamesClients jsm op
  deadline : op.DeadlineBounded
  expiry : ExpiresWithin (· < maxTime) jsm op

instance (jsm : JSM) (op : Op) : Decidable (Leasable jsm op) :=
  decidable_of_iff (op.clientID? ≠ some [] ∧ op.DeadlineBounded ∧
      ExpiresWithin (· < maxTime) jsm op)
    ⟨fun ⟨named, deadline, expiry⟩ => ⟨named, deadline, expiry⟩,
      fun leasable => ⟨leasable.named, leasable.deadline, leasable.expiry⟩⟩

/-- The job is the owner's: no other reservation for it is made, and what
another client tries to do with it fails and leaves it as it is. -/
structure Exclusive (lease : Lease) (jsm : JSM) : Prop where
  holds : lease.Holds jsm
  unmatched : ∀ op answer after, Leasable jsm op → op.Steps jsm answer after →
    lease.after (op, answer) ≠ none → ∀ resv ∈ answer.matches, resv.jobId ≠ lease.jobID
  refuses : ∀ op clientID answer after, op.actsOn = some (lease.jobID, clientID) →
    clientID ≠ lease.clientID → Leasable jsm op → op.Steps jsm answer after →
    (∃ error, answer = .error error) ∧ after.recordOf lease.jobID = jsm.recordOf lease.jobID

theorem admissible_leasable : Admissible .ownTouches Leasable where
  readyExact := by simp [Kinds.ownTouches]
  delayedExact := by simp [Kinds.ownTouches]
  bounded := fun _ _ leasable => leasable.deadline
  touchesOwn := fun _ _ _ leasable => leasable.named.touchesOwn
  deletesNoBuried := fun impossible => absurd rfl impossible

/-- The state of a run of leases. -/
structure LeasesOk (jsm : JSM) : Prop where
  containers : ContainersOk .ownTouches jsm
  owners : OwnersOk (· < maxTime) jsm

section Steps

variable {lease next : Lease} {before after : JSM} {op : Op} {answer : Answer}

theorem LeasesOk.of_effect (ok : LeasesOk before) (leasable : Leasable before op)
    (effect : Effect .ownTouches before op answer after) : LeasesOk after where
  containers := effect.containersOk ok.containers
  owners := effect.ownersOk ok.containers admissible_leasable.readyExact
    (by simp [Kinds.ownTouches]) (fun _ below => below) leasable.expiry
    leasable.named.touchesOwn ok.owners

theorem leasesOk_of_run {start : JSM} {events : List (Op × Answer)} (ok : LeasesOk start)
    (run : Run Leasable start events after) : LeasesOk after :=
  run.invariant (fun _ _ _ _ ok leasable steps =>
    ok.of_effect leasable (admissible_leasable.effect ok.containers leasable steps)) ok

theorem leasesOk_newJSM : LeasesOk newJSM :=
  ⟨containersOk_newJSM, fun id record recorded => by cases recorded⟩

theorem Lease.Holds.of_recordOf (holds : lease.Holds before)
    (same : after.recordOf lease.jobID = before.recordOf lease.jobID) : lease.Holds after := by
  obtain ⟨record, recorded, isLeased⟩ := holds
  exact ⟨record, same.trans recorded, isLeased⟩

theorem Lease.Holds.owner {record : Job} {clientID : ClientID} (holds : lease.Holds before)
    (recorded : before.recordOf lease.jobID = some record) (owned : record.OwnedBy clientID)
    (named : clientID ≠ []) : clientID = lease.clientID := by
  obtain ⟨held, isHeld, _, owner, _⟩ := holds
  rw [recorded] at isHeld
  rw [← owner, ← Option.some.inj isHeld]
  exact (owned.2.resolve_left named).symm

section Tick

variable {kinds : Kinds} {nowSecs : Int64} {walk : TubeWalk} {matched : List (CliPtr × Job)}
  {processed : List CliPtr} {answers : List Reservation} {woken served : JSM}

theorem TickDone.matched_ne
    (done : TickDone kinds nowSecs walk matched processed answers before woken served after)
    (holds : lease.Holds before) :
    woken.recordOf lease.jobID = before.recordOf lease.jobID ∧
      ∀ pair ∈ matched, pair.2.id ≠ lease.jobID := by
  obtain ⟨record, recorded, isReserved, _⟩ := holds
  have same : woken.recordOf lease.jobID = before.recordOf lease.jobID := by
    rw [done.delay.records, recorded, Option.map_some,
      Job.wake_of_state_ne (by simp [isReserved]), ite_self]
  refine ⟨same, fun pair member isLeased => ?_⟩
  obtain ⟨isRecorded, isReady⟩ := done.ready.wasReady pair member
  rw [isLeased, same, recorded] at isRecorded
  rw [← Option.some.inj isRecorded, isReserved] at isReady
  cases isReady

theorem TickDone.recordOf_leased
    (done : TickDone .ownTouches nowSecs walk matched processed answers before woken served after)
    (holds : lease.Holds served) (unexpired : ¬ lease.expiresAt < nowSecs) :
    after.recordOf lease.jobID = served.recordOf lease.jobID := by
  obtain ⟨record, recorded, _, _, _, expiry⟩ := holds
  rw [done.clients.records (by simp [Kinds.ownTouches]), recorded, Option.map_some, Job.expire,
    if_neg]
  rw [expiry]
  exact fun expired => unexpired expired.2.2

end Tick

theorem Lease.eq_of_after (lasts : lease.after (op, answer) = some next)
    (untouched : ∀ reply, answer = .ok reply → ∀ nowSeconds,
      op ≠ .touch nowSeconds lease.jobID lease.clientID) : next = lease := by
  unfold Lease.after at lasts
  split at lasts
  case h_5 isTouch =>
    split at lasts
    next own =>
      obtain ⟨rfl, rfl⟩ := own
      obtain ⟨rfl, rfl⟩ := Prod.mk.inj isTouch
      exact absurd rfl (untouched _ rfl _)
    next => exact (Option.some.inj lasts).symm
  case h_7 => exact (Option.some.inj lasts).symm
  all_goals
    split at lasts
    · cases lasts
    · exact (Option.some.inj lasts).symm

theorem Lease.after_givesUp {reply : Reply}
    (gives : op.givesUp = some (lease.jobID, lease.clientID)) :
    lease.after (op, .ok reply) = none := by
  cases op <;> cases gives <;> simp [Lease.after]

theorem named_of_actsOn {jobID : JobID} {clientID : ClientID} (named : NamesClients before op)
    (acts : op.actsOn = some (jobID, clientID)) : clientID ≠ [] := by
  rintro rfl
  apply named
  cases op <;> cases acts <;> rfl

theorem Op.actsOn_of_givesUp {jobID : JobID} {clientID : ClientID}
    (gives : op.givesUp = some (jobID, clientID)) : op.actsOn = some (jobID, clientID) := by
  cases op <;> cases gives <;> rfl

theorem Lease.Holds.step (holds : lease.Holds before) (ok : LeasesOk before)
    (leasable : Leasable before op) (effect : Effect .ownTouches before op answer after)
    (lasts : lease.after (op, answer) = some next) : next.Holds after := by
  obtain ⟨record, recorded, isReserved, owner, ttr, expiry⟩ := id holds
  -- an operation that does not concern the leased job keeps the lease as it is
  have kept : (∀ reply, answer = .ok reply → ∀ nowSeconds,
      op ≠ .touch nowSeconds lease.jobID lease.clientID) →
      after.recordOf lease.jobID = before.recordOf lease.jobID → next.Holds after :=
    fun untouched same => Lease.eq_of_after lasts untouched ▸ holds.of_recordOf same
  have moved_ne : ∀ {jobID moved}, before.recordOf jobID = some moved → moved.state ≠ .reserved →
      lease.jobID ≠ jobID := by
    rintro jobID moved isMoved unreserved rfl
    rw [recorded] at isMoved
    exact unreserved (Option.some.inj isMoved ▸ isReserved)
  cases effect with
  | refused same => exact kept (by simp) (by rw [same.recordOf])
  | looked reads => exact kept (by rintro _ _ _ rfl; cases reads) rfl
  | put absent done records =>
      refine kept (by simp) ?_
      rw [records, if_neg]
      intro same
      rw [← same, recorded] at absent
      cases absent
  | putTaken _ done records => exact kept (by simp) (records _)
  | @deleted jobID clientID _ _ deleted allowed =>
      by_cases isLeased : lease.jobID = jobID
      · obtain ⟨rfl, found, isFound, isOwner⟩ := allowed (by simp [Kinds.ownTouches])
        rw [← isLeased, recorded] at isFound
        obtain rfl := Option.some.inj isFound
        simp [Lease.after, isLeased, ← owner, isOwner isReserved] at lasts
      · exact kept (by simp) (by rw [deleted.records, if_neg isLeased])
  | @givenUp _ jobID clientID _ _ _ gives owned done =>
      by_cases isLeased : lease.jobID = jobID
      · have isOwner : clientID = lease.clientID :=
          holds.owner (isLeased ▸ done.was) owned
            (named_of_actsOn leasable.named (Op.actsOn_of_givesUp gives))
        subst isLeased isOwner
        rw [Lease.after_givesUp gives] at lasts
        cases lasts
      · refine kept (by rintro _ _ _ rfl; cases gives) ?_
        rw [done.records, if_neg isLeased]
  | kicked isBuried moved =>
      refine kept (by simp) ?_
      rw [moved.records, if_neg (moved_ne moved.was (by simp [isBuried]))]
  | kickedSome kicked =>
      refine kept (by simp) ?_
      rcases kicked.records lease.jobID with same | ⟨old, isOld, isBuried, _⟩
      · exact same
      · exact absurd rfl (moved_ne isOld (by simp [isBuried]))
  | @touched nowSeconds jobID clientID _ _ _ _ owned moved _ _ rescheduled =>
      by_cases isLeased : lease.jobID = jobID
      · have isOwner : clientID = lease.clientID :=
          holds.owner (isLeased ▸ moved.was) owned (named_of_actsOn leasable.named rfl)
        subst isLeased isOwner
        have isNext : next = { lease with expiresAt := nowSeconds + lease.ttr } := by
          simpa [Lease.after] using lasts.symm
        have same := Option.some.inj (recorded.symm.trans moved.was)
        subst same isNext
        refine ⟨record.updateReservation nowSeconds, ?_, ?_⟩
        · rw [rescheduled.frame.recordOf, moved.records, if_pos rfl]
        · simp [isReserved, owner, ttr]
      · refine kept (by simp; exact fun same _ => absurd same.symm isLeased) ?_
        rw [rescheduled.frame.recordOf, moved.records, if_neg isLeased]
  | @touchedOrphan _ _ clientID _ _ _ owned moved orphan =>
      obtain ⟨_, cli, registered, isOwner⟩ := ok.owners _ _ moved.was owned.1
      refine absurd (isOwner.trans ?_) (orphan cli registered)
      exact leasable.named.touchesOwn _ moved.was owned
  | @appended clientId reqID watchedTubes nowSecs _ _ _ _ _ _ appended =>
      refine kept (by simp) ?_
      rcases appended.outcome with ⟨_, _, rescheduled⟩ | ⟨_, _, entry, head, served, _⟩
      · rw [rescheduled.frame.recordOf, appended.asked.frame.recordOf]
      · obtain ⟨isRecorded, home⟩ := ok.containers.jobs.recordOf_jobOf (.ready _)
          admissible_leasable.readyExact (List.mem_of_head? head)
        have isReady := ((Job.home_eq_ready_iff _ _).mp home).1
        rw [served.records, if_neg (moved_ne isRecorded (by simp [isReady])),
          appended.asked.frame.recordOf]
  | @ticked nowSecs _ _ _ _ _ _ _ done =>
      refine kept (by simp) ?_
      obtain ⟨sameWoken, unmatched⟩ := done.matched_ne holds
      have sameServed := done.ready.unserved lease.jobID fun listed => by
        obtain ⟨pair, member, isLeased⟩ := List.mem_map.mp listed
        exact unmatched pair member isLeased
      have unexpired : ¬ lease.expiresAt < nowSecs := by
        intro expired
        simp [Lease.after, expired] at lasts
      rw [done.recordOf_leased (holds.of_recordOf (sameServed.trans sameWoken)) unexpired,
        sameServed, sameWoken]

/-- The lease that a matched reservation starts: it is on a job that was not
reserved before, no other reservation of the same answer names that job, and
the lease holds afterwards, unless the same tick is past its expiry. -/
structure Granted (lease : Lease) (resv : Reservation) (op : Op) (answer : Answer)
    (before after : JSM) : Prop where
  jobID : lease.jobID = resv.jobId
  clientID : lease.clientID = resv.clientId
  expiry : ∃ clock, op.clock? = some clock ∧ lease.expiresAt = clock + lease.ttr
  was : ∃ record, before.recordOf lease.jobID = some record ∧ record.ttr = lease.ttr ∧
    record.state ≠ .reserved
  once : ∀ other ∈ answer.matches, other.jobId = resv.jobId → other = resv
  lasts : ∀ next, lease.after (op, answer) = some next → next = lease ∧ lease.Holds after

theorem granted_appended {clientId : ClientID} {reqID : ReqID} {watchedTubes : List TubeName}
    {nowSecs resvDeadlineAt : Int64} {resv : Reservation} {cli : CliPtr} {middle : JSM}
    (ok : LeasesOk before)
    (appended : Appended .ownTouches clientId reqID watchedTubes nowSecs resvDeadlineAt resv cli
      before middle after) (isMatched : resv.status = .matched) :
    ∃ lease, Granted lease resv
      (.appendReservation clientId reqID watchedTubes nowSecs resvDeadlineAt)
      (.ok (.reservation resv)) before after := by
  rcases appended.outcome with ⟨rfl, _⟩ | ⟨_, _, entry, head, served, rfl⟩
  · cases isMatched
  obtain ⟨recorded, home⟩ := ok.containers.jobs.recordOf_jobOf (.ready _)
    admissible_leasable.readyExact (List.mem_of_head? head)
  have isReady := ((Job.home_eq_ready_iff _ _).mp home).1
  refine ⟨⟨(before.jobOf entry).id, cli.cliID, (before.jobOf entry).ttr,
    nowSecs + (before.jobOf entry).ttr⟩, rfl, rfl, ⟨nowSecs, rfl, rfl⟩,
    ⟨_, recorded, rfl, by simp [isReady]⟩, fun other member _ => ?_, fun next lasts => ?_⟩
  · exact List.mem_singleton.mp (List.mem_filter.mp member).1
  · refine ⟨(Option.some.inj lasts).symm,
      (before.jobOf entry).reservedFor nowSecs cli.cliID, ?_, ?_⟩
    · exact (served.records _).trans (if_pos rfl)
    · simp [Job.reservedFor]

theorem granted_ticked {nowSecs : Int64} {walk : TubeWalk} {matched : List (CliPtr × Job)}
    {processed : List CliPtr} {answers : List Reservation} {woken served : JSM}
    (done : TickDone .ownTouches nowSecs walk matched processed answers before woken served after)
    {resv : Reservation} (member : resv ∈ matchedReservations before matched ++ answers)
    (isMatched : resv.status = .matched) :
    ∃ lease, Granted lease resv (.tick nowSecs walk)
      (.ok (.reservations (matchedReservations before matched ++ answers))) before after := by
  have inMatched : ∀ other ∈ matchedReservations before matched ++ answers,
      other.status = .matched → other ∈ matchedReservations before matched := by
    intro other inside otherMatched
    refine (List.mem_append.mp inside).resolve_right fun inAnswers => ?_
    obtain ⟨cli, _, _, status, unmatched, rfl⟩ := done.clients.given other inAnswers
    rcases unmatched with rfl | rfl <;> cases otherMatched
  obtain ⟨⟨cli, job⟩, isPair, rfl⟩ := List.mem_map.mp (inMatched resv member isMatched)
  obtain ⟨recorded, isReady⟩ := done.ready.wasReady _ isPair
  obtain ⟨old, wasRecorded, sameTtr⟩ := done.delay.ttr_before recorded
  refine ⟨⟨job.id, cli.cliID, job.ttr, nowSecs + job.ttr⟩, rfl, rfl, ⟨nowSecs, rfl, rfl⟩,
    ⟨old, wasRecorded, sameTtr, fun wasReserved => ?_⟩, fun other inside sameJob => ?_,
    fun next lasts => ?_⟩
  · have holds : Lease.Holds ⟨job.id, old.reservedBy, old.ttr, old.expiresAt⟩ before :=
      ⟨old, wasRecorded, wasReserved, rfl, rfl, rfl⟩
    exact (done.matched_ne holds).2 (cli, job) isPair rfl
  · obtain ⟨isOther, otherMatched⟩ := List.mem_filter.mp inside
    obtain ⟨otherPair, inPairs, rfl⟩ :=
      List.mem_map.mp (inMatched other isOther (of_decide_eq_true otherMatched))
    have same : otherPair = (cli, job) :=
      List.inj_on_of_nodup_map done.ready.jobsNodup inPairs isPair sameJob
    rw [same]
  · have unexpired : ¬ nowSecs + job.ttr < nowSecs := by
      intro expired
      simp [Lease.after, expired] at lasts
    have holds : Lease.Holds ⟨job.id, cli.cliID, job.ttr, nowSecs + job.ttr⟩ served :=
      ⟨_, done.ready.served _ isPair, by simp [Job.reservedFor]⟩
    refine ⟨?_, holds.of_recordOf (done.recordOf_leased holds unexpired)⟩
    exact Lease.eq_of_after lasts (by simp)

theorem granted_of_matched (ok : LeasesOk before)
    (effect : Effect .ownTouches before op answer after) {resv : Reservation}
    (member : resv ∈ answer.matches) : ∃ lease, Granted lease resv op answer before after := by
  cases effect with
  | @deleted _ _ answer _ _ allowed =>
      obtain ⟨rfl, _⟩ := allowed (by simp [Kinds.ownTouches])
      cases member
  | @kickedSome _ _ answer _ _ counts =>
      cases answer with
      | ok reply =>
          obtain ⟨count, rfl⟩ := counts reply rfl
          cases member
      | error => cases member
  | appended _ appended =>
      obtain ⟨inside, isMatched⟩ := List.mem_filter.mp member
      obtain rfl := List.mem_singleton.mp inside
      exact granted_appended ok appended (of_decide_eq_true isMatched)
  | ticked done =>
      obtain ⟨inside, isMatched⟩ := List.mem_filter.mp member
      exact granted_ticked done inside (of_decide_eq_true isMatched)
  | _ => cases member

theorem Lease.Holds.exclusive (holds : lease.Holds before) (ok : LeasesOk before) :
    Exclusive lease before := by
  refine ⟨holds, fun op answer after leasable steps _ resv member isLeased => ?_,
    fun op clientID answer after acts different leasable steps => ?_⟩
  · obtain ⟨record, recorded, isReserved, _⟩ := holds
    obtain ⟨other, granted⟩ := granted_of_matched ok
      (admissible_leasable.effect ok.containers leasable steps) member
    obtain ⟨found, isFound, _, unreserved⟩ := granted.was
    rw [granted.jobID, isLeased, recorded] at isFound
    exact unreserved (Option.some.inj isFound ▸ isReserved)
  · have named := named_of_actsOn leasable.named acts
    cases admissible_leasable.effect ok.containers leasable steps with
    | refused same => exact ⟨⟨_, rfl⟩, by rw [same.recordOf]⟩
    | looked reads =>
        rw [reads] at acts
        cases acts
    | deleted _ allowed =>
        cases acts
        obtain ⟨_, record, recorded, isOwner⟩ := allowed (by simp [Kinds.ownTouches])
        obtain ⟨_, isHeld, isReserved, owner, _⟩ := holds
        obtain rfl := Option.some.inj (recorded.symm.trans isHeld)
        exact absurd ((isOwner isReserved).symm.trans owner) different
    | givenUp gives owned done =>
        obtain ⟨rfl, rfl⟩ := Prod.mk.inj
          (Option.some.inj ((Op.actsOn_of_givesUp gives).symm.trans acts))
        exact absurd (holds.owner done.was owned named) different
    | touched owned moved =>
        cases acts
        exact absurd (holds.owner moved.was owned named) different
    | touchedOrphan owned moved =>
        cases acts
        exact absurd (holds.owner moved.was owned named) different
    | _ => cases acts

theorem Lease.Holds.run {start last : JSM} {events : List (Op × Answer)}
    (holds : lease.Holds start) (ok : LeasesOk start) (run : Run Leasable start events last) :
    ∀ current, lease.afterAll events = some current → current.Holds last := by
  induction run with
  | nil =>
      intro current lasts
      cases lasts
      exact holds
  | snoc run leasable steps induction =>
      intro current lasts
      unfold Lease.afterAll at lasts
      rw [List.foldl_append] at lasts
      obtain ⟨middle, isMiddle, lasts⟩ := Option.bind_eq_some_iff.mp lasts
      have okMiddle := leasesOk_of_run ok run
      exact (induction middle isMiddle).step okMiddle leasable
        (admissible_leasable.effect okMiddle.containers leasable steps) lasts

theorem Lease.afterAll_cons (lease : Lease) (event : Op × Answer) (events : List (Op × Answer)) :
    lease.afterAll (event :: events) = (lease.after event).bind (·.afterAll events) := by
  unfold Lease.afterAll
  rw [List.foldl_cons, Option.bind_some]
  cases lease.after event with
  | some next => rfl
  | none =>
      rw [Option.bind_none]
      induction events with
      | nil => rfl
      | cons event events induction => exact induction

end Steps

/-- A matched reservation is an exclusive lease for as long as it lasts. -/
theorem exclusive_of_matched {events : List (Op × Answer)} {before start : JSM}
    (run : Run Leasable newJSM events before) {op : Op} {answer : Answer}
    (leasable : Leasable before op) (steps : op.Steps before answer start) (resv : Reservation)
    (given : resv ∈ answer.matches) :
    ∃ lease : Lease, lease.jobID = resv.jobId ∧ lease.clientID = resv.clientId ∧
      (∃ clock, op.clock? = some clock ∧ lease.expiresAt = clock + lease.ttr) ∧
      (∃ record, before.recordOf lease.jobID = some record ∧ record.ttr = lease.ttr) ∧
      (∀ other ∈ answer.matches, other.jobId = resv.jobId → other = resv) ∧
      ∀ later last current, Run Leasable start later last →
        lease.afterAll ((op, answer) :: later) = some current → Exclusive current last := by
  have ok := leasesOk_of_run leasesOk_newJSM run
  have effect := admissible_leasable.effect ok.containers leasable steps
  have okStart := ok.of_effect leasable effect
  obtain ⟨lease, granted⟩ := granted_of_matched ok effect given
  obtain ⟨record, recorded, ttr, _⟩ := granted.was
  refine ⟨lease, granted.jobID, granted.clientID, granted.expiry, ⟨record, recorded, ttr⟩,
    granted.once, fun later last current run lasts => ?_⟩
  rw [Lease.afterAll_cons] at lasts
  obtain ⟨next, isNext, stillLasts⟩ := Option.bind_eq_some_iff.mp lasts
  obtain ⟨rfl, holds⟩ := granted.lasts next isNext
  exact (holds.run okStart run current stillLasts).exclusive (leasesOk_of_run okStart run)

/-- A run that makes a job ready. -/
def oneReady : List Op :=
  [.put 10 5 0 60 0 none [1]]

/-- The request that is matched with it. -/
def oneRequest : Op :=
  .appendReservation [7] [1] [[1]] 10 20

/-- The reservation that starts the lease. -/
def oneMatch : Reservation where
  requestId := [1]
  clientId := [7]
  jobId := 1
  status := .matched
  bodySize := 0
  body := none
  error := none

theorem exclusive_oneMatch :
    ∃ start, oneRequest.Steps (stateAfter oneReady) (.ok (.reservation oneMatch)) start ∧
      ∃ lease : Lease, lease.jobID = 1 ∧ lease.clientID = [7] ∧ Exclusive lease start := by
  have run : Run Leasable newJSM (history oneReady newJSM) (stateAfter oneReady) :=
    run_history oneReady (by decide +kernel) (by decide +kernel)
  obtain ⟨start, left⟩ : ∃ start, (oneRequest.run (stateAfter oneReady)).state? = some start :=
    Option.isSome_iff_exists.mp (by decide +kernel)
  have steps : oneRequest.Steps (stateAfter oneReady) (.ok (.reservation oneMatch)) start :=
    ⟨by decide +kernel, left⟩
  have leasable : Leasable (stateAfter oneReady) oneRequest := by decide +kernel
  obtain ⟨lease, jobID, clientID, _, _, _, lasts⟩ :=
    exclusive_of_matched run leasable steps oneMatch (by decide)
  exact ⟨start, steps, lease, jobID, clientID, lasts [] start lease (.nil start) rfl⟩

/-- A `Release` by the owner ends the lease too. -/
theorem released_by_owner :
    Run Leasable newJSM (history (oneReady ++ [oneRequest, .release 1 [7]]) newJSM)
        (stateAfter (oneReady ++ [oneRequest, .release 1 [7]])) ∧
      ((stateAfter (oneReady ++ [oneRequest])).recordOf 1).map (·.state) = some .reserved ∧
      ((stateAfter (oneReady ++ [oneRequest, .release 1 [7]])).recordOf 1).map (·.state) =
        some .ready := by
  refine ⟨run_history _ ?_ ?_, ?_, ?_⟩
  all_goals decide +kernel

end Coolbeans
