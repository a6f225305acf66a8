import Coolbeans.ClientClocks
import Coolbeans.RequestLedger

/-!
# Replicas that walk the tubes in different orders

A tick visits the tubes in the order of a Go map, which each replica chooses
for itself.  The replicas agree exactly if no waiting client can be served by
two tubes, that is, if no client stands, in two wait queues, within the number
of jobs that the tube can hand out in this tick.
-/

namespace Coolbeans

open FiniteMap PositionHeap StatefulProgram

/-- Two states are the same but for addresses and for the layout of heaps and
maps. -/
structure Alike (first second : JSM) : Prop where
  records : ∀ id, first.recordOf id = second.recordOf id
  queues : ∀ tubeName, (first.waitingAt tubeName).entries = (second.waitingAt tubeName).entries
  entries : first.clients.entries = second.clients.entries
  content : ∀ cli, (first.clientAt cli).content = (second.clientAt cli).content
  heap : ∀ cli, cli ∈ first.clientHeap ↔ cli ∈ second.clientHeap
  nextDelayTickAt : first.nextDelayTickAt = second.nextDelayTickAt
  maxJobID : first.maxJobID = second.maxJobID

/-! ## The stages of a tick -/

section Stages

variable {kinds : Kinds} {nowSecs : Int64} {jsm first second firstAfter secondAfter : JSM}

/-- The delay timer after the delay stage is determined by the jobs that stay
delayed. -/
theorem DelayDone.nextDelayTickAt_eq (one : DelayDone kinds nowSecs jsm first)
    (other : DelayDone kinds nowSecs jsm second) :
    first.nextDelayTickAt = second.nextDelayTickAt := by
  have records : ∀ id, first.recordOf id = second.recordOf id := by
    intro id
    rw [one.records, other.records]
  have oneTick := one.tickAt
  have otherTick := other.tickAt
  split at oneTick
  next due =>
    rw [if_pos due] at otherTick
    obtain ⟨oneMax, oneLeast, oneIs⟩ := oneTick
    obtain ⟨otherMax, otherLeast, otherIs⟩ := otherTick
    apply Int64.le_antisymm
    · rcases otherIs with isMax | ⟨id, record, recorded, isDelayed, isTick⟩
      · exact isMax ▸ oneMax
      · exact isTick ▸ oneLeast id record ((records id).trans recorded) isDelayed
    · rcases oneIs with isMax | ⟨id, record, recorded, isDelayed, isTick⟩
      · exact isMax ▸ otherMax
      · exact isTick ▸ otherLeast id record ((records id).symm.trans recorded) isDelayed
  next early =>
    rw [if_neg early] at otherTick
    exact oneTick.trans otherTick.symm

theorem DelayDone.alike (one : DelayDone kinds nowSecs jsm first)
    (other : DelayDone kinds nowSecs jsm second) : Alike first second := by
  obtain ⟨clients, clientHeap, clientAt, _, queues⟩ := JSM.fields_of_clientView one.clients
  obtain ⟨otherClients, otherHeap, otherAt, _, otherQueues⟩ :=
    JSM.fields_of_clientView other.clients
  exact
    { records := fun id => by rw [one.records, other.records]
      queues := fun tubeName => by rw [queues, otherQueues]
      entries := by rw [clients, otherClients]
      content := fun cli => by rw [clientAt, otherAt]
      heap := fun cli => by rw [clientHeap, otherHeap]
      nextDelayTickAt := one.nextDelayTickAt_eq other
      maxJobID := one.maxJobID.trans other.maxJobID.symm }

theorem firstExpiry_eq_of_records (jobs : JobsOk kinds first) (otherJobs : JobsOk kinds second)
    (reservedExact : kinds .reserved)
    (records : ∀ id, first.recordOf id = second.recordOf id) (clientID : ClientID) :
    first.firstExpiry clientID = second.firstExpiry clientID :=
  otherJobs.firstExpiry_congr jobs reservedExact fun id _ _ => by rw [records]

theorem tickAtFor_eq_of_records (jobs : JobsOk kinds first) (otherJobs : JobsOk kinds second)
    (reservedExact : kinds .reserved)
    (records : ∀ id, first.recordOf id = second.recordOf id) {cli : CliPtr}
    (waiting : (first.clientAt cli).isWaitingForResv = (second.clientAt cli).isWaitingForResv)
    (deadline : (first.clientAt cli).resvDeadlineAt = (second.clientAt cli).resvDeadlineAt) :
    first.tickAtFor cli = second.tickAtFor cli := by
  simp only [JSM.tickAtFor, nextClientTickAt, waiting, deadline,
    firstExpiry_eq_of_records jobs otherJobs reservedExact records]

/-- The outcome of the matching stage depends on who is matched with what, not
on the order of the matches. -/
theorem ServedAll.alike {pairs otherPairs : List (CliPtr × Job)}
    (one : ServedAll kinds nowSecs pairs first firstAfter)
    (other : ServedAll kinds nowSecs otherPairs second secondAfter)
    (reservedExact : kinds .reserved) (alike : Alike first second)
    (same : ∀ pair, pair ∈ pairs ↔ pair ∈ otherPairs) : Alike firstAfter secondAfter := by
  have sameClients : ∀ cli, cli ∈ pairs.map Prod.fst ↔ cli ∈ otherPairs.map Prod.fst := by
    intro cli
    simp only [List.mem_map, same]
  have sameJobs : ∀ id, id ∈ pairs.map (fun pair => pair.2.id) ↔
      id ∈ otherPairs.map fun pair => pair.2.id := by
    intro id
    simp only [List.mem_map, same]
  have records : ∀ id, firstAfter.recordOf id = secondAfter.recordOf id := by
    intro id
    by_cases isServed : id ∈ pairs.map fun pair => pair.2.id
    · obtain ⟨pair, inside, rfl⟩ := List.mem_map.mp isServed
      rw [one.served pair inside, other.served pair ((same pair).mp inside)]
    · rw [one.unserved id isServed, other.unserved id (mt (sameJobs id).mpr isServed),
        alike.records]
  have tickAt : ∀ pair ∈ pairs,
      (firstAfter.clientAt pair.1).tickAt = (secondAfter.clientAt pair.1).tickAt := by
    intro pair inside
    have otherInside := (same pair).mp inside
    obtain ⟨_, deadline, waiting, _⟩ := ClientResvEntry.fields_of_content_eq (one.idle pair inside)
    obtain ⟨_, otherDeadline, otherWaiting, _⟩ :=
      ClientResvEntry.fields_of_content_eq (other.idle pair otherInside)
    rw [one.tickAt reservedExact pair inside, other.tickAt reservedExact pair otherInside]
    exact tickAtFor_eq_of_records one.jobs other.jobs reservedExact records
      (waiting.trans otherWaiting.symm) (deadline.trans otherDeadline.symm)
  have content : ∀ cli, (firstAfter.clientAt cli).content = (secondAfter.clientAt cli).content := by
    intro cli
    by_cases isServed : cli ∈ pairs.map Prod.fst
    · obtain ⟨pair, inside, rfl⟩ := List.mem_map.mp isServed
      rw [one.idle pair inside, other.idle pair ((same pair).mp inside), tickAt pair inside,
        alike.content]
    · rw [one.others cli isServed, other.others cli (mt (sameClients cli).mpr isServed),
        alike.content]
  have clock : ∀ cli, (firstAfter.clientAt cli).tickAt = (secondAfter.clientAt cli).tickAt :=
    fun cli => (ClientResvEntry.fields_of_content (content cli)).2.2.2.1
  exact
    { records := records
      queues := by
        intro tubeName
        rw [one.queues, other.queues, alike.queues]
        apply List.filter_congr
        intro cli _
        rw [decide_eq_decide, sameClients]
      entries := by
        rw [one.entries, other.entries, alike.entries]
        apply List.filter_congr
        intro cli _
        rw [decide_eq_decide, sameClients, clock, alike.heap]
      content := content
      heap := by
        intro cli
        rw [one.heap, other.heap, clock]
        by_cases isServed : cli ∈ pairs.map Prod.fst
        · rw [if_pos isServed, if_pos ((sameClients cli).mp isServed)]
        · rw [if_neg isServed, if_neg (mt (sameClients cli).mpr isServed), alike.heap]
      nextDelayTickAt := by
        rw [one.nextDelayTickAt, other.nextDelayTickAt, alike.nextDelayTickAt]
      maxJobID := by rw [one.maxJobID, other.maxJobID, alike.maxJobID] }

/-- The last stage attends to the clients whose clocks have passed, and to no
others. -/
theorem ClientsTicked.mem_processed {processed : List CliPtr} {resvs : List Reservation}
    (ticked : ClientsTicked kinds nowSecs processed resvs first firstAfter)
    (finished : ∀ cli ∈ firstAfter.clientHeap, nowSecs ≤ (firstAfter.clientAt cli).tickAt)
    (cli : CliPtr) : cli ∈ processed ↔
      cli ∈ first.clientHeap ∧ (first.clientAt cli).tickAt < nowSecs := by
  refine ⟨ticked.due cli, fun ⟨onHeap, due⟩ => ?_⟩
  by_contra skipped
  have heap := ticked.heap cli
  rw [if_neg skipped] at heap
  have late := finished cli (heap.mpr onHeap)
  rw [(ClientResvEntry.fields_of_content (ticked.others cli skipped)).2.2.2.1] at late
  exact Int64.not_le.mpr due late

theorem Job.expire_congr {clientIDs others : List ClientID}
    (same : ∀ clientID, clientID ∈ clientIDs ↔ clientID ∈ others) :
    Job.expire nowSecs clientIDs = Job.expire nowSecs others := by
  funext job
  simp only [Job.expire, same]

theorem ClientsTicked.alike {processed otherProcessed : List CliPtr}
    {resvs otherResvs : List Reservation}
    (one : ClientsTicked kinds nowSecs processed resvs first firstAfter)
    (other : ClientsTicked kinds nowSecs otherProcessed otherResvs second secondAfter)
    (finished : ∀ cli ∈ firstAfter.clientHeap, nowSecs ≤ (firstAfter.clientAt cli).tickAt)
    (otherFinished : ∀ cli ∈ secondAfter.clientHeap,
      nowSecs ≤ (secondAfter.clientAt cli).tickAt)
    (reservedExact : kinds .reserved) (alike : Alike first second) :
    Alike firstAfter secondAfter ∧ ∀ resv, resv ∈ resvs ↔ resv ∈ otherResvs := by
  have same : ∀ cli, cli ∈ processed ↔ cli ∈ otherProcessed := by
    intro cli
    rw [one.mem_processed finished, other.mem_processed otherFinished, alike.heap,
      (ClientResvEntry.fields_of_content (alike.content cli)).2.2.2.1]
  have records : ∀ id, firstAfter.recordOf id = secondAfter.recordOf id := by
    intro id
    rw [one.records reservedExact, other.records reservedExact, alike.records]
    congr 1
    apply Job.expire_congr
    intro clientID
    simp only [List.mem_map, same]
  have answers : ∀ resv, resv ∈ resvs ↔ resv ∈ otherResvs := by
    intro resv
    rw [one.answers reservedExact, other.answers reservedExact]
    simp only [same, clientAnswer_congr (alike.content _),
      firstExpiry_eq_of_records one.jobs other.jobs reservedExact records]
  have answered : ∀ clientID, clientID ∈ resvs.map (·.clientId) ↔
      clientID ∈ otherResvs.map (·.clientId) := by
    intro clientID
    simp only [List.mem_map, answers]
  have own : ∀ cli,
      (if cli.cliID ∈ resvs.map (·.clientId) then (first.clientAt cli).idle
        else first.clientAt cli).content =
      (if cli.cliID ∈ otherResvs.map (·.clientId) then (second.clientAt cli).idle
        else second.clientAt cli).content := by
    intro cli
    by_cases isAnswered : cli.cliID ∈ resvs.map (·.clientId)
    · rw [if_pos isAnswered, if_pos ((answered _).mp isAnswered)]
      exact ClientResvEntry.idle_content_congr (alike.content cli)
    · rw [if_neg isAnswered, if_neg (mt (answered _).mpr isAnswered)]
      exact alike.content cli
  have content : ∀ cli, (firstAfter.clientAt cli).content = (secondAfter.clientAt cli).content := by
    intro cli
    by_cases isProcessed : cli ∈ processed
    · have otherProcessed := (same cli).mp isProcessed
      have oneOwn := one.own cli isProcessed
      have otherOwn := other.own cli otherProcessed
      rw [own cli] at oneOwn
      obtain ⟨_, deadline, waiting, _⟩ := ClientResvEntry.fields_of_content_eq oneOwn
      obtain ⟨_, otherDeadline, otherWaiting, _⟩ := ClientResvEntry.fields_of_content_eq otherOwn
      have tickAt : (firstAfter.clientAt cli).tickAt = (secondAfter.clientAt cli).tickAt := by
        rw [one.tickAt reservedExact cli isProcessed,
          other.tickAt reservedExact cli otherProcessed]
        exact tickAtFor_eq_of_records one.jobs other.jobs reservedExact records
          (waiting.trans otherWaiting.symm) (deadline.trans otherDeadline.symm)
      rw [oneOwn, otherOwn, tickAt]
    · rw [one.others cli isProcessed, other.others cli (mt (same cli).mpr isProcessed),
        alike.content]
  refine ⟨?_, answers⟩
  exact
    { records := records
      queues := by
        intro tubeName
        rw [one.queues, other.queues, alike.queues]
        apply List.filter_congr
        intro cli _
        rw [decide_eq_decide, answered]
      entries := by rw [one.entries, other.entries, alike.entries]
      content := content
      heap := by
        intro cli
        rw [one.heap, other.heap,
          (ClientResvEntry.fields_of_content (content cli)).2.2.2.1]
        by_cases isProcessed : cli ∈ processed
        · rw [if_pos isProcessed, if_pos ((same cli).mp isProcessed)]
        · rw [if_neg isProcessed, if_neg (mt (same cli).mpr isProcessed), alike.heap]
      nextDelayTickAt := by
        rw [one.nextDelayTickAt, other.nextDelayTickAt, alike.nextDelayTickAt]
      maxJobID := by rw [one.maxJobID, other.maxJobID, alike.maxJobID] }

end Stages

/-! ## Who can be served where -/

namespace JSM

/-- The job is ready, or the delay stage of this tick makes it ready. -/
def Available (jsm : JSM) (nowSecs : Int64) (record : Job) : Prop :=
  record.state = .ready ∨
    jsm.nextDelayTickAt < nowSecs ∧ record.state = .delayed ∧ record.readyAt < nowSecs

instance (jsm : JSM) (nowSecs : Int64) : DecidablePred (jsm.Available nowSecs) :=
  fun _ => inferInstanceAs (Decidable (_ ∨ _))

/-- The jobs that a tube can hand out in a tick. -/
def availableIn (jsm : JSM) (nowSecs : Int64) (tubeName : TubeName) : List JobID :=
  jsm.jobs.keys.filter fun id =>
    (jsm.recordOf id).any fun record => record.tubeName = tubeName ∧ jsm.Available nowSecs record

/-- The clients that a tube can serve in a tick. -/
def inReach (jsm : JSM) (nowSecs : Int64) (tubeName : TubeName) : List CliPtr :=
  (jsm.waitingAt tubeName).entries.take (jsm.availableIn nowSecs tubeName).length

/-- No client can be served by two tubes. -/
def ReachApart (jsm : JSM) (nowSecs : Int64) : Prop :=
  ∀ first second, first ≠ second → ∀ cli ∈ jsm.inReach nowSecs first,
    cli ∉ jsm.inReach nowSecs second

theorem mem_keys_of_inReach {jsm : JSM} {nowSecs : Int64} {tubeName : TubeName} {cli : CliPtr}
    (reached : cli ∈ jsm.inReach nowSecs tubeName) : tubeName ∈ jsm.tubes.keys := by
  rw [mem_keys_iff_hasTube]
  exact jsm.hasTube_of_waiting tubeName (List.mem_of_mem_take reached)

instance (jsm : JSM) (nowSecs : Int64) : Decidable (jsm.ReachApart nowSecs) :=
  decidable_of_iff (∀ first ∈ jsm.tubes.keys, ∀ second ∈ jsm.tubes.keys, first ≠ second →
      ∀ cli ∈ jsm.inReach nowSecs first, cli ∉ jsm.inReach nowSecs second) <| by
    constructor
    · intro apart first second different cli inFirst inSecond
      exact apart first (mem_keys_of_inReach inFirst) second (mem_keys_of_inReach inSecond)
        different cli inFirst inSecond
    · exact fun apart first _ second _ different => apart first second different

end JSM

section Reach

variable {kinds : Kinds} {nowSecs : Int64} {jsm woken : JSM}

theorem JSM.mem_availableIn (jsm : JSM) (tubeName : TubeName) (id : JobID) :
    id ∈ jsm.availableIn nowSecs tubeName ↔
      ∃ record, jsm.recordOf id = some record ∧ record.tubeName = tubeName ∧
        jsm.Available nowSecs record := by
  unfold JSM.availableIn
  rw [List.mem_filter, Option.any_eq_true]
  simp only [decide_eq_true_eq]
  constructor
  · rintro ⟨_, record, recorded, isAvailable⟩
    exact ⟨record, recorded, isAvailable⟩
  · rintro ⟨record, recorded, isAvailable⟩
    exact ⟨JSM.mem_keys_of_recordOf recorded, record, recorded, isAvailable⟩

/-- The jobs of a tube that are ready after the delay stage are those that were
available before. -/
theorem DelayDone.length_readyOrder (done : DelayDone kinds nowSecs jsm woken)
    (readyExact : kinds .ready) (tubeName : TubeName) :
    (woken.readyOrder tubeName).length = (jsm.availableIn nowSecs tubeName).length := by
  have sorted := done.jobs.readyOrder_sorted readyExact tubeName
  have nodup : (woken.readyOrder tubeName).Nodup :=
    sorted.imp fun less => by rintro rfl; exact lt_irrefl _ less
  have idsNodup : ((woken.readyOrder tubeName).map (·.id)).Nodup := by
    refine nodup.map_on fun first firstMember second secondMember same => ?_
    have firstRecorded := ((done.jobs.mem_readyOrder readyExact first).mp firstMember).1
    have secondRecorded := ((done.jobs.mem_readyOrder readyExact second).mp secondMember).1
    rw [same, secondRecorded] at firstRecorded
    exact (Option.some.inj firstRecorded).symm
  have members : ∀ id, id ∈ (woken.readyOrder tubeName).map (·.id) ↔
      id ∈ jsm.availableIn nowSecs tubeName := by
    intro id
    rw [JSM.mem_availableIn, List.mem_map]
    constructor
    · rintro ⟨record, member, rfl⟩
      obtain ⟨recorded, home⟩ := (done.jobs.mem_readyOrder readyExact record).mp member
      obtain ⟨isReady, inTube⟩ := (Job.home_eq_ready_iff _ _).mp home
      rw [done.records] at recorded
      obtain ⟨old, wasRecorded, isRecord⟩ := Option.map_eq_some_iff.mp recorded
      refine ⟨old, wasRecorded, ?_⟩
      by_cases woke : jsm.nextDelayTickAt < nowSecs
      · rw [if_pos woke] at isRecord
        refine ⟨by rw [← inTube, ← isRecord, Job.tubeName_wake], ?_⟩
        by_cases due : old.state = .delayed ∧ old.readyAt < nowSecs
        · exact Or.inr ⟨woke, due⟩
        · rw [Job.wake, if_neg due] at isRecord
          exact Or.inl (isRecord ▸ isReady)
      · rw [if_neg woke] at isRecord
        exact isRecord ▸ ⟨inTube, Or.inl isReady⟩
    · rintro ⟨old, wasRecorded, inTube, isAvailable⟩
      have recorded := done.records id
      rw [wasRecorded, Option.map_some] at recorded
      have isReady : (if jsm.nextDelayTickAt < nowSecs then old.wake nowSecs else old).state =
          .ready := by
        rcases isAvailable with isReady | ⟨woke, due⟩
        · rw [Job.wake_of_state_ne (by simp [isReady]), ite_self, isReady]
        · rw [if_pos woke, Job.wake, if_pos due]
          simp
      have sameTube : (if jsm.nextDelayTickAt < nowSecs then old.wake nowSecs else old).tubeName =
          tubeName := by
        split
        · rw [Job.tubeName_wake, inTube]
        · exact inTube
      have sameId := done.jobs.recordOf_id recorded
      refine ⟨_, (done.jobs.mem_readyOrder readyExact _).mpr ⟨?_, ?_⟩, sameId⟩
      · rw [sameId, recorded]
      · exact (Job.home_eq_ready_iff _ _).mpr ⟨isReady, sameTube⟩
  have perm : ((woken.readyOrder tubeName).map (·.id)).Perm (jsm.availableIn nowSecs tubeName) :=
    (List.perm_ext_iff_of_nodup idsNodup (jsm.jobs.keys_nodup.filter _)).mpr members
  rw [← perm.length_eq, List.length_map]

theorem DelayDone.inReach_eq (done : DelayDone kinds nowSecs jsm woken)
    (readyExact : kinds .ready) (tubeName : TubeName) :
    WaitingLine.inReach woken.readyOrder (fun tubeName => (woken.waitingAt tubeName).entries)
      tubeName = jsm.inReach nowSecs tubeName := by
  obtain ⟨_, _, _, _, queues⟩ := JSM.fields_of_clientView done.clients
  unfold WaitingLine.inReach JSM.inReach
  rw [done.length_readyOrder readyExact]
  exact congrArg (List.take _) (queues tubeName)

variable {walk : TubeWalk} {matched : List (CliPtr × Job)} {processed : List CliPtr}
  {answers : List Reservation} {served after : JSM}

/-- If the reaches are apart, every tube serves its own queue. -/
theorem TickDone.mem_matched
    (done : TickDone kinds nowSecs walk matched processed answers jsm woken served after)
    (readyExact : kinds .ready) (apart : jsm.ReachApart nowSecs) (pair : CliPtr × Job) :
    pair ∈ matched ↔ ∃ tubeName,
      pair ∈ (woken.waitingAt tubeName).entries.zip (woken.readyOrder tubeName) := by
  have perm := walk.perm_ready woken.tubes.keys
  have nodup : (walk.ready woken.tubes.keys).Nodup :=
    perm.nodup_iff.mpr woken.tubes.keys_nodup
  rw [done.order, WaitingLine.serve_of_apart nodup, List.mem_flatMap]
  · constructor
    · rintro ⟨tubeName, _, inside⟩
      exact ⟨tubeName, inside⟩
    · rintro ⟨tubeName, inside⟩
      refine ⟨tubeName, perm.mem_iff.mpr ?_, inside⟩
      rw [JSM.mem_keys_iff_hasTube]
      exact woken.hasTube_of_waiting tubeName (List.of_mem_zip inside).1
  · intro first _ second _ different cli
    rw [done.delay.inReach_eq readyExact, done.delay.inReach_eq readyExact]
    exact apart first second different cli

/-- A walk that begins with a tube. -/
def TubeWalk.startingAt (tubeName : TubeName) : TubeWalk where
  delay := id
  ready names := if tubeName ∈ names then tubeName :: names.erase tubeName else names
  mem_delay := mem_id
  perm_ready names := by
    split
    next member => exact (List.perm_cons_erase member).symm
    next => exact List.Perm.refl names

/-- The tube that is visited first serves everybody in its reach. -/
theorem TickDone.matched_startingAt {tubeName : TubeName}
    (done : TickDone kinds nowSecs (.startingAt tubeName) matched processed answers jsm woken
      served after) (readyExact : kinds .ready) {cli : CliPtr}
    (reached : cli ∈ jsm.inReach nowSecs tubeName) :
    ∃ job, (cli, job) ∈ matched ∧ job.tubeName = tubeName := by
  rw [← done.delay.inReach_eq readyExact, WaitingLine.inReach, ← WaitingLine.map_fst_zip] at reached
  obtain ⟨⟨customer, job⟩, inside, rfl⟩ := List.mem_map.mp reached
  have queued := (List.of_mem_zip inside).1
  have listed : tubeName ∈ woken.tubes.keys := by
    rw [JSM.mem_keys_iff_hasTube]
    exact woken.hasTube_of_waiting tubeName queued
  have walks : (TubeWalk.startingAt tubeName).ready woken.tubes.keys =
      tubeName :: woken.tubes.keys.erase tubeName := if_pos listed
  refine ⟨job, ?_, ?_⟩
  · rw [done.order, walks, WaitingLine.serve]
    exact List.mem_append_left _ inside
  · have home := ((done.delay.jobs.mem_readyOrder readyExact job).mp
      (List.of_mem_zip inside).2).2
    exact ((Job.home_eq_ready_iff _ _).mp home).2

end Reach

/-! ## Agreement -/

/-- Two replicas return the same reservations and end in the same state. -/
def Agree (first second : Outcome JSM Err Panic (List Reservation)) : Prop :=
  ∃ resvs firstAfter others secondAfter, first = .ok resvs firstAfter ∧
    second = .ok others secondAfter ∧ resvs.Perm others ∧ Alike firstAfter secondAfter

/-- Jobs are touched by their owners, and the deadlines of requests are before
the end of time. -/
def Steady (jsm : JSM) (op : Op) : Prop :=
  TouchesOwn jsm op ∧ op.DeadlineBounded

theorem admissible_steady : Admissible .ownTouches Steady where
  readyExact := by simp [Kinds.ownTouches]
  delayedExact := by simp [Kinds.ownTouches]
  bounded := fun _ _ steady => steady.2
  touchesOwn := fun _ _ _ steady => steady.1
  deletesNoBuried := fun impossible => absurd rfl impossible

theorem tick_returns {jsm : JSM} (ok : ContainersOk .ownTouches jsm) (nowSecs : Int64)
    (walk : TubeWalk) : ∃ matched processed answers woken served after,
      TickDone .ownTouches nowSecs walk matched processed answers jsm woken served after ∧
      tick nowSecs walk jsm = .ok (matchedReservations jsm matched ++ answers) after := by
  obtain ⟨resvs, after, returns, matched, processed, answers, woken, served, done, rfl⟩ :=
    ((ends_tick ok.jobs ok.clients admissible_steady.readyExact admissible_steady.delayedExact
      walk).mono (fun _ _ holds => holds) (fun _ _ => False.elim)
      fun inexact => inexact (by simp [Kinds.ownTouches])).returns
  exact ⟨matched, processed, answers, woken, served, after, done, returns⟩

theorem agree_of_apart {jsm : JSM} (ok : ContainersOk .ownTouches jsm) {nowSecs : Int64}
    (apart : jsm.ReachApart nowSecs) (walk other : TubeWalk) :
    Agree (tick nowSecs walk jsm) (tick nowSecs other jsm) := by
  have readyExact := admissible_steady.readyExact
  have reservedExact : Kinds.ownTouches .reserved := by simp [Kinds.ownTouches]
  obtain ⟨matched, processed, answers, woken, served, after, done, returns⟩ :=
    tick_returns ok nowSecs walk
  obtain ⟨matched', processed', answers', woken', served', after', done', returns'⟩ :=
    tick_returns ok nowSecs other
  have wokenAlike := done.delay.alike done'.delay
  have same : ∀ pair, pair ∈ matched ↔ pair ∈ matched' := by
    intro pair
    rw [done.mem_matched readyExact apart, done'.mem_matched readyExact apart]
    have order : ∀ tubeName, woken.readyOrder tubeName = woken'.readyOrder tubeName :=
      fun tubeName => done'.delay.jobs.readyOrder_congr done.delay.jobs readyExact
        fun id _ _ => by rw [wokenAlike.records]
    simp only [wokenAlike.queues, order]
  obtain ⟨afterAlike, sameAnswers⟩ := done.clients.alike done'.clients done.finished
    done'.finished reservedExact (done.ready.alike done'.ready reservedExact wokenAlike same)
  refine ⟨_, after, _, after', returns, returns', ?_, afterAlike⟩
  refine (List.perm_ext_iff_of_nodup ?_ ?_).mpr fun resv => ?_
  · exact List.Nodup.of_map _ done.settles.nodup
  · exact List.Nodup.of_map _ done'.settles.nodup
  · rw [List.mem_append, List.mem_append, sameAnswers]
    simp only [matchedReservations, List.mem_map, same]

theorem apart_of_agree {jsm : JSM} (ok : ContainersOk .ownTouches jsm) {nowSecs : Int64}
    (agree : ∀ walk other : TubeWalk, Agree (tick nowSecs walk jsm) (tick nowSecs other jsm)) :
    jsm.ReachApart nowSecs := by
  intro first second different cli inFirst inSecond
  have readyExact := admissible_steady.readyExact
  obtain ⟨matched, _, answers, woken, _, _, done, returns⟩ :=
    tick_returns ok nowSecs (.startingAt first)
  obtain ⟨matched', _, answers', woken', _, _, done', returns'⟩ :=
    tick_returns ok nowSecs (.startingAt second)
  obtain ⟨job, inMatched, inTube⟩ := done.matched_startingAt readyExact inFirst
  obtain ⟨job', inMatched', inTube'⟩ := done'.matched_startingAt readyExact inSecond
  obtain ⟨resvs, _, others, _, isFirst, isSecond, perm, _⟩ :=
    agree (.startingAt first) (.startingAt second)
  rw [returns] at isFirst
  rw [returns'] at isSecond
  cases isFirst
  cases isSecond
  have answer : matchedReservation (jsm.clientAt cli).reqID cli job ∈
      matchedReservations jsm matched ++ answers :=
    List.mem_append_left answers (List.mem_map.mpr ⟨_, inMatched, rfl⟩)
  have answer' : matchedReservation (jsm.clientAt cli).reqID cli job' ∈
      matchedReservations jsm matched ++ answers :=
    perm.mem_iff.mpr (List.mem_append_left answers' (List.mem_map.mpr ⟨_, inMatched', rfl⟩))
  -- the client gets one answer, so both tubes have handed out the same job
  have sameAnswer := List.inj_on_of_nodup_map done.settles.nodup answer answer' rfl
  have sameId : job.id = job'.id := congrArg (·.jobId) sameAnswer
  have recorded := (done.ready.wasReady _ inMatched).1
  have recorded' := (done'.ready.wasReady _ inMatched').1
  change woken.recordOf job.id = some job at recorded
  change woken'.recordOf job'.id = some job' at recorded'
  rw [(done.delay.alike done'.delay).records, sameId, recorded'] at recorded
  exact different (inTube.symm.trans (Option.some.inj recorded ▸ inTube'))

/-- The replicas agree exactly if no waiting client can be served by two tubes. -/
theorem tick_agrees_iff {jsm : JSM} (reachable : Reachable Steady jsm) (nowSecs : Int64) :
    (∀ walk other : TubeWalk, Agree (tick nowSecs walk jsm) (tick nowSecs other jsm)) ↔
      jsm.ReachApart nowSecs := by
  have ok := admissible_steady.reachable reachable
  exact ⟨apart_of_agree ok, agree_of_apart ok⟩

/-- A run in which two clients wait, each for a tube of its own that has a job. -/
def twoLines : List Op :=
  [.appendReservation [7] [1] [[1]] 10 90, .appendReservation [8] [2] [[2]] 10 90,
    .put 11 5 0 60 0 none [1], .put 11 5 0 60 0 none [2]]

instance (jsm : JSM) (op : Op) : Decidable (Steady jsm op) :=
  inferInstanceAs (Decidable (_ ∧ _))

theorem tick_agrees_twoLines :
    ((stateAfter twoLines).inReach 12 [1]).map (·.cliID) = [[7]] ∧
      ((stateAfter twoLines).inReach 12 [2]).map (·.cliID) = [[8]] ∧
      ∀ walk other : TubeWalk,
        Agree (tick 12 walk (stateAfter twoLines)) (tick 12 other (stateAfter twoLines)) := by
  have reachable : Reachable Steady (stateAfter twoLines) :=
    reachable_of_admitted twoLines (by decide +kernel)
  have apart : (stateAfter twoLines).ReachApart 12 := by decide +kernel
  exact ⟨by decide +kernel, by decide +kernel, (tick_agrees_iff reachable 12).mpr apart⟩

/-- A run in which one client waits for two tubes that have a job each. -/
def twoTubes : List Op :=
  [.appendReservation [7] [1] [[1], [2]] 10 90, .put 11 5 0 60 0 none [1],
    .put 11 5 0 60 0 none [2]]

/-- Who has got which job, if the tick returns. -/
def handedOut : Outcome JSM Err Panic (List Reservation) → Option (List (ClientID × JobID))
  | .ok resvs _ => some (resvs.map fun resv => (resv.clientId, resv.jobId))
  | _ => none

/-- The replica that walks one tube first reserves the job of that tube. -/
theorem tick_disagrees :
    Reachable WellCalled (stateAfter twoTubes) ∧
      handedOut (tick 12 (.startingAt [1]) (stateAfter twoTubes)) = some [([7], 1)] ∧
      handedOut (tick 12 (.startingAt [2]) (stateAfter twoTubes)) = some [([7], 2)] ∧
      ¬ Agree (tick 12 (.startingAt [1]) (stateAfter twoTubes))
        (tick 12 (.startingAt [2]) (stateAfter twoTubes)) := by
  have called : ∀ op ∈ twoTubes, op.clientID? ≠ some [] ∧ op.Proper := by decide
  have first : handedOut (tick 12 (.startingAt [1]) (stateAfter twoTubes)) = some [([7], 1)] := by
    decide +kernel
  have second : handedOut (tick 12 (.startingAt [2]) (stateAfter twoTubes)) =
      some [([7], 2)] := by
    decide +kernel
  refine ⟨reachable_stateAfter _ fun op member _ => called op member, first, second, ?_⟩
  rintro ⟨resvs, after, others, otherAfter, isFirst, isSecond, perm, _⟩
  rw [isFirst, handedOut] at first
  rw [isSecond, handedOut] at second
  have jobs := perm.map fun resv => (resv.clientId, resv.jobId)
  rw [Option.some.inj first, Option.some.inj second] at jobs
  exact absurd (List.perm_singleton.mp jobs) (by decide)

end Coolbeans
