import Coolbeans.TubeVisit

/-!
# The matching stage of a tick

`tickReadyJobs` hands out the ready jobs as `WaitingLine.serve` does.  If the client
containers agree, its effect on the whole state is known: it is collected in
`ServedAll`.
-/

namespace Coolbeans

open FiniteMap PositionHeap StatefulProgram

/-! ## The expiry of the first reserved job -/

section FirstExpiry

variable {kinds : Kinds} {jsm : JSM}

theorem HeapKey.expiresAt_le_of_sortKey_le {clientID : ClientID} {first second : Job}
    (le : (HeapKey.reserved clientID).sortKey first ≤ (HeapKey.reserved clientID).sortKey second) :
    first.expiresAt ≤ second.expiresAt := by
  simp only [HeapKey.sortKey, Prod.Lex.toLex_le_toLex] at le
  rw [Int64.le_iff_toInt_le]
  omega

/-- The first expiry is the least of those of the client's reserved jobs. -/
theorem JobsOk.firstExpiry_cases (inv : JobsOk kinds jsm) (reservedExact : kinds .reserved)
    (clientID : ClientID) :
    (jsm.firstExpiry clientID = none ∧ ∀ id record, jsm.recordOf id = some record →
      record.home ≠ some (.reserved clientID)) ∨
    ∃ id record, jsm.recordOf id = some record ∧ record.home = some (.reserved clientID) ∧
      jsm.firstExpiry clientID = some record.expiresAt ∧
      ∀ other later, jsm.recordOf other = some later → later.home = some (.reserved clientID) →
        record.expiresAt ≤ later.expiresAt := by
  unfold JSM.firstExpiry
  cases head : (jsm.heapAt (.reserved clientID)).head? with
  | none =>
      refine Or.inl ⟨rfl, fun id record recorded => ?_⟩
      exact inv.home_ne_of_empty (.reserved clientID) reservedExact
        (List.head?_eq_none_iff.mp head) recorded
  | some entry =>
      obtain ⟨recorded, home⟩ :=
        inv.recordOf_jobOf (.reserved clientID) reservedExact (List.mem_of_head? head)
      refine Or.inr ⟨_, _, recorded, home, rfl, fun other later isRecorded isHome => ?_⟩
      exact HeapKey.expiresAt_le_of_sortKey_le
        (inv.head_le (.reserved clientID) reservedExact head isRecorded isHome)

theorem JobsOk.firstExpiry_congr {other : JSM} (inv : JobsOk kinds jsm)
    (otherInv : JobsOk kinds other) (reservedExact : kinds .reserved) {clientID : ClientID}
    (same : ∀ id record, record.home = some (.reserved clientID) →
      (other.recordOf id = some record ↔ jsm.recordOf id = some record)) :
    other.firstExpiry clientID = jsm.firstExpiry clientID := by
  rcases inv.firstExpiry_cases reservedExact clientID with
    ⟨isNone, nobody⟩ | ⟨id, record, recorded, home, isSome, least⟩
  · rcases otherInv.firstExpiry_cases reservedExact clientID with
      ⟨otherNone, _⟩ | ⟨id, record, recorded, home, _⟩
    · rw [isNone, otherNone]
    · exact absurd home (nobody id record ((same id record home).mp recorded))
  · rcases otherInv.firstExpiry_cases reservedExact clientID with
      ⟨_, nobody⟩ | ⟨otherId, later, laterRecorded, laterHome, otherSome, otherLeast⟩
    · exact absurd home (nobody id record ((same id record home).mpr recorded))
    · have forth := least otherId later ((same otherId later laterHome).mp laterRecorded) laterHome
      have back := otherLeast id record ((same id record home).mpr recorded) home
      rw [isSome, otherSome, Int64.le_antisymm back forth]

end FirstExpiry

/-! ## Serving many clients -/

/-- The listed clients have been served, each with the job beside it. -/
structure ServedAll (kinds : Kinds) (nowSecs : Int64) (pairs : List (CliPtr × Job))
    (before after : JSM) : Prop where
  jobs : JobsOk kinds after
  clients : ClientsOk after
  wasWaiting : ∀ pair ∈ pairs, pair.1 ∈ before.clients.entries ∧
    (before.clientAt pair.1).isWaitingForResv = true ∧
    pair.2.tubeName ∈ (before.clientAt pair.1).watchedTubes
  wasReady : ∀ pair ∈ pairs, before.recordOf pair.2.id = some pair.2 ∧ pair.2.state = .ready
  clientsNodup : (pairs.map Prod.fst).Nodup
  jobsNodup : (pairs.map fun pair => pair.2.id).Nodup
  served : ∀ pair ∈ pairs,
    after.recordOf pair.2.id = some (pair.2.reservedFor nowSecs pair.1.cliID)
  unserved : ∀ id, id ∉ pairs.map (fun pair => pair.2.id) → after.recordOf id = before.recordOf id
  idle : ∀ pair ∈ pairs, (after.clientAt pair.1).content =
    { (before.clientAt pair.1).content with
      isWaitingForResv := false
      resvDeadlineAt := maxTime
      tickAt := (after.clientAt pair.1).tickAt }
  others : ∀ cli, cli ∉ pairs.map Prod.fst →
    (after.clientAt cli).content = (before.clientAt cli).content
  heap : ∀ cli, cli ∈ after.clientHeap ↔
    if cli ∈ pairs.map Prod.fst then (after.clientAt cli).tickAt < maxTime
    else cli ∈ before.clientHeap
  entries : after.clients.entries = before.clients.entries.filter fun cli =>
    cli ∉ pairs.map Prod.fst ∨ (after.clientAt cli).tickAt < maxTime ∨ cli ∉ before.clientHeap
  tickAt : kinds .reserved → ∀ pair ∈ pairs,
    (after.clientAt pair.1).tickAt = after.tickAtFor pair.1
  queues : ∀ tubeName, (after.waitingAt tubeName).entries =
    (before.waitingAt tubeName).entries.filter (· ∉ pairs.map Prod.fst)
  nextDelayTickAt : after.nextDelayTickAt = before.nextDelayTickAt
  maxJobID : after.maxJobID = before.maxJobID
  tubes : ∀ tubeName, before.hasTube tubeName = true → after.hasTube tubeName = true

section ServedAll

variable {kinds : Kinds} {nowSecs : Int64}

theorem ServedAll.nil {jsm : JSM} (jobs : JobsOk kinds jsm) (clients : ClientsOk jsm) :
    ServedAll kinds nowSecs [] jsm jsm where
  jobs := jobs
  clients := clients
  wasWaiting := by simp
  wasReady := by simp
  clientsNodup := by simp
  jobsNodup := by simp
  served := by simp
  unserved := by simp
  idle := by simp
  others := by simp
  heap := by simp
  entries := by simp
  tickAt := by simp
  queues := by simp
  nextDelayTickAt := rfl
  maxJobID := rfl
  tubes := fun _ present => present

theorem ServedAll.single {before after : JSM} {cli : CliPtr} {job : Job}
    (registered : cli ∈ before.clients.entries)
    (waiting : (before.clientAt cli).isWaitingForResv = true)
    (watched : job.tubeName ∈ (before.clientAt cli).watchedTubes) (isReady : job.state = .ready)
    (served : Served kinds nowSecs cli job before after) :
    ServedAll kinds nowSecs [(cli, job)] before after := by
  have own := served.content cli
  rw [if_pos rfl] at own
  have tickAt : (after.clientAt cli).tickAt = after.tickAtFor cli :=
    (ClientResvEntry.fields_of_content_eq own).2.2.2.1
  exact
    { jobs := served.jobs
      clients := served.clients
      wasWaiting := by simpa using ⟨registered, waiting, watched⟩
      wasReady := by simpa using ⟨served.was, isReady⟩
      clientsNodup := by simp
      jobsNodup := by simp
      served := by
        intro pair member
        cases List.mem_singleton.mp member
        rw [served.records, if_pos rfl]
      unserved := by
        intro id different
        rw [served.records, if_neg]
        simpa using different
      idle := by
        intro pair member
        cases List.mem_singleton.mp member
        rw [own, tickAt]
      others := by
        intro other different
        rw [served.content, if_neg]
        simpa using different
      heap := by
        intro other
        rw [served.heap]
        by_cases same : other = cli
        · simp [same, tickAt]
        · simp [same]
      entries := by
        rw [served.entries, ← tickAt]
        by_cases keeps : (after.clientAt cli).tickAt < maxTime ∨ cli ∉ before.clientHeap
        · rw [if_pos keeps, List.filter_eq_self.mpr]
          intro other _
          by_cases same : other = cli
          · simpa [same] using keeps
          · simp [same]
        · rw [if_neg keeps]
          apply List.filter_congr
          intro other _
          by_cases same : other = cli
          · simpa [same] using keeps
          · simp [same]
      tickAt := by
        intro _ pair member
        cases List.mem_singleton.mp member
        exact tickAt
      queues := by
        intro tubeName
        rw [served.queues]
        simp
      nextDelayTickAt := served.nextDelayTickAt
      maxJobID := served.maxJobID
      tubes := served.tubes }

section Append

variable {first middle after : JSM} {pairs later : List (CliPtr × Job)}

theorem ServedAll.registered_before (served : ServedAll kinds nowSecs pairs first middle)
    {cli : CliPtr} (registered : cli ∈ middle.clients.entries) : cli ∈ first.clients.entries := by
  rw [served.entries] at registered
  exact List.mem_of_mem_filter registered

theorem ServedAll.not_waiting (served : ServedAll kinds nowSecs pairs first middle)
    {cli : CliPtr} (member : cli ∈ pairs.map Prod.fst) :
    (middle.clientAt cli).isWaitingForResv = false := by
  obtain ⟨pair, inside, rfl⟩ := List.mem_map.mp member
  exact (ClientResvEntry.fields_of_content_eq (served.idle pair inside)).2.2.1

theorem ServedAll.fresh (served : ServedAll kinds nowSecs pairs first middle)
    (next : ServedAll kinds nowSecs later middle after) :
    ∀ cli ∈ later.map Prod.fst, cli ∉ pairs.map Prod.fst := by
  intro cli member again
  obtain ⟨pair, inside, rfl⟩ := List.mem_map.mp member
  have waiting := (next.wasWaiting pair inside).2.1
  rw [served.not_waiting again] at waiting
  cases waiting

theorem ServedAll.freshJob (served : ServedAll kinds nowSecs pairs first middle)
    (next : ServedAll kinds nowSecs later middle after) :
    ∀ id ∈ later.map (fun pair => pair.2.id), id ∉ pairs.map fun pair => pair.2.id := by
  intro id member again
  obtain ⟨pair, inside, rfl⟩ := List.mem_map.mp member
  obtain ⟨earlier, earlierInside, sameId⟩ := List.mem_map.mp again
  obtain ⟨recorded, isReady⟩ := next.wasReady pair inside
  have reserved := served.served earlier earlierInside
  rw [sameId, recorded] at reserved
  have reserved := Option.some.inj reserved
  rw [reserved] at isReady
  simp [Job.reservedFor] at isReady

theorem ServedAll.tickAtFor (next : ServedAll kinds nowSecs later middle after)
    (jobs : JobsOk kinds middle) (reservedExact : kinds .reserved) {cli : CliPtr}
    (others : ∀ pair ∈ later, pair.1.cliID ≠ cli.cliID) :
    after.tickAtFor cli = middle.tickAtFor cli := by
  have unserved : cli ∉ later.map Prod.fst := by
    intro member
    obtain ⟨pair, inside, rfl⟩ := List.mem_map.mp member
    exact others pair inside rfl
  obtain ⟨_, deadline, waiting, _⟩ :=
    ClientResvEntry.fields_of_content (next.others cli unserved)
  have expiry : after.firstExpiry cli.cliID = middle.firstExpiry cli.cliID := by
    refine jobs.firstExpiry_congr next.jobs reservedExact fun id record home => ?_
    obtain ⟨isReserved, owner⟩ := (Job.home_eq_reserved_iff _ _).mp home
    by_cases moved : id ∈ later.map fun pair => pair.2.id
    · obtain ⟨pair, inside, rfl⟩ := List.mem_map.mp moved
      rw [next.served pair inside, (next.wasReady pair inside).1]
      constructor
      · intro same
        rw [← Option.some.inj same] at owner
        exact absurd (by simpa [Job.reservedFor] using owner) (others pair inside)
      · intro same
        rw [← Option.some.inj same, (next.wasReady pair inside).2] at isReserved
        cases isReserved
    · rw [next.unserved id moved]
  simp only [JSM.tickAtFor, nextClientTickAt, waiting, deadline, expiry]

theorem ServedAll.append (served : ServedAll kinds nowSecs pairs first middle)
    (next : ServedAll kinds nowSecs later middle after) :
    ServedAll kinds nowSecs (pairs ++ later) first after := by
  have fresh := served.fresh next
  have freshJob := served.freshJob next
  have unchanged : ∀ cli ∈ pairs.map Prod.fst,
      (after.clientAt cli).content = (middle.clientAt cli).content :=
    fun cli member => next.others cli fun again => fresh cli again member
  have sameTick : ∀ cli ∈ pairs.map Prod.fst,
      (after.clientAt cli).tickAt = (middle.clientAt cli).tickAt :=
    fun cli member => (ClientResvEntry.fields_of_content (unchanged cli member)).2.2.2.1
  have old : ∀ cli ∈ later.map Prod.fst,
      (middle.clientAt cli).content = (first.clientAt cli).content :=
    fun cli member => served.others cli (fresh cli member)
  exact
    { jobs := next.jobs
      clients := next.clients
      wasWaiting := by
        intro pair member
        rcases List.mem_append.mp member with inside | inside
        · exact served.wasWaiting pair inside
        · obtain ⟨registered, waiting, watches⟩ := next.wasWaiting pair inside
          obtain ⟨watched, _, wasWaiting, _⟩ :=
            ClientResvEntry.fields_of_content (old pair.1 (List.mem_map_of_mem inside))
          rw [wasWaiting] at waiting
          rw [watched] at watches
          exact ⟨served.registered_before registered, waiting, watches⟩
      wasReady := by
        intro pair member
        rcases List.mem_append.mp member with inside | inside
        · exact served.wasReady pair inside
        · obtain ⟨recorded, isReady⟩ := next.wasReady pair inside
          rw [served.unserved _ (freshJob _ (List.mem_map.mpr ⟨pair, inside, rfl⟩))] at recorded
          exact ⟨recorded, isReady⟩
      clientsNodup := by
        rw [List.map_append]
        exact served.clientsNodup.append next.clientsNodup fun cli member again =>
          fresh cli again member
      jobsNodup := by
        rw [List.map_append]
        exact served.jobsNodup.append next.jobsNodup fun id member again =>
          freshJob id again member
      served := by
        intro pair member
        rcases List.mem_append.mp member with inside | inside
        · rw [next.unserved, served.served pair inside]
          intro again
          exact freshJob _ again (List.mem_map.mpr ⟨pair, inside, rfl⟩)
        · exact next.served pair inside
      unserved := by
        intro id outside
        rw [List.map_append, List.mem_append, not_or] at outside
        rw [next.unserved id outside.2, served.unserved id outside.1]
      idle := by
        intro pair member
        rcases List.mem_append.mp member with inside | inside
        · have listed := @List.mem_map_of_mem _ _ _ _ Prod.fst inside
          rw [unchanged _ listed, served.idle pair inside, sameTick _ listed]
        · rw [next.idle pair inside, old _ (List.mem_map_of_mem inside)]
      others := by
        intro cli outside
        rw [List.map_append, List.mem_append, not_or] at outside
        rw [next.others cli outside.2, served.others cli outside.1]
      heap := by
        intro cli
        have split : cli ∈ (pairs ++ later).map Prod.fst ↔
            cli ∈ pairs.map Prod.fst ∨ cli ∈ later.map Prod.fst := by
          rw [List.map_append, List.mem_append]
        rw [next.heap, served.heap]
        by_cases earlier : cli ∈ pairs.map Prod.fst
        · have notLater : cli ∉ later.map Prod.fst := fun again => fresh cli again earlier
          rw [if_pos earlier, if_neg notLater, if_pos (split.mpr (Or.inl earlier)),
            sameTick cli earlier]
        · by_cases isLater : cli ∈ later.map Prod.fst
          · rw [if_pos isLater, if_pos (split.mpr (Or.inr isLater))]
          · rw [if_neg isLater, if_neg earlier, if_neg fun either =>
              (split.mp either).elim earlier isLater]
      entries := by
        rw [next.entries, served.entries, List.filter_filter]
        apply List.filter_congr
        intro cli _
        have onHeap := served.heap cli
        rw [Bool.eq_iff_iff]
        simp only [Bool.and_eq_true, decide_eq_true_eq, List.map_append, List.mem_append]
        by_cases earlier : cli ∈ pairs.map Prod.fst
        · have notLater : cli ∉ later.map Prod.fst := fun again => fresh cli again earlier
          rw [sameTick cli earlier]
          simp [earlier, notLater]
        · rw [if_neg earlier] at onHeap
          rw [onHeap]
          simp [earlier]
      tickAt := by
        intro reservedExact pair member
        rcases List.mem_append.mp member with inside | inside
        · have listed := @List.mem_map_of_mem _ _ _ _ Prod.fst inside
          rw [sameTick _ listed, served.tickAt reservedExact pair inside]
          refine (next.tickAtFor served.jobs reservedExact fun other otherInside same => ?_).symm
          have registered := served.registered_before (next.wasWaiting other otherInside).1
          have isOther := first.clients.eq_of_cliID_eq registered
            (served.wasWaiting pair inside).1 same
          exact fresh other.1 (List.mem_map_of_mem otherInside) (isOther ▸ listed)
        · exact next.tickAt reservedExact pair inside
      queues := by
        intro tubeName
        rw [next.queues, served.queues, List.filter_filter]
        apply List.filter_congr
        intro cli _
        rw [Bool.eq_iff_iff]
        simp only [Bool.and_eq_true, decide_eq_true_eq, List.map_append, List.mem_append, not_or]
        exact and_comm
      nextDelayTickAt := next.nextDelayTickAt.trans served.nextDelayTickAt
      maxJobID := next.maxJobID.trans served.maxJobID
      tubes := fun tubeName present => next.tubes tubeName (served.tubes tubeName present) }

end Append

end ServedAll

/-! ## The matching stage -/

section Stage

variable {kinds : Kinds} {nowSecs : Int64} {jsm : JSM}

/-- A waiting client has been served with a ready job of a tube that it watches. -/
structure ServedFrom (kinds : Kinds) (nowSecs : Int64) (cli : CliPtr) (job : Job)
    (before after : JSM) : Prop where
  served : Served kinds nowSecs cli job before after
  wasWaiting : cli ∈ before.clients.entries ∧ (before.clientAt cli).isWaitingForResv = true ∧
    job.tubeName ∈ (before.clientAt cli).watchedTubes
  wasReady : job.state = .ready

theorem serving_served (readyExact : kinds .ready) :
    Serving kinds nowSecs (fun jsm => JobsOk kinds jsm ∧ ClientsOk jsm)
      (ServedFrom kinds nowSecs) where
  jobs _ ok := ok.1
  hands _ _ _ _ from' := from'.served.handed from'.wasReady
  serve jsm tubeName cli entry ok queued head := by
    obtain ⟨registered, waiting, watched⟩ := ok.2.waiting_of_queued queued
    have member := List.mem_of_head? head
    obtain ⟨_, home⟩ := ok.1.recordOf_jobOf (.ready tubeName) readyExact member
    obtain ⟨isReady, inTube⟩ := (Job.home_eq_ready_iff _ _).mp home
    refine (ends_reserveFor ok.1 ok.2 readyExact registered waiting member).mono ?_
      (fun _ _ => id) id
    rintro resv after ⟨served, isResv⟩
    exact ⟨⟨served.jobs, served.clients⟩,
      ⟨served, ⟨registered, waiting, inTube ▸ watched⟩, isReady⟩, isResv⟩

theorem ServedAll.of_inTurn {pairs : List (CliPtr × Job)} {after : JSM}
    (jobs : JobsOk kinds jsm) (clients : ClientsOk jsm)
    (inTurn : InTurn (ServedFrom kinds nowSecs) pairs jsm after) :
    ServedAll kinds nowSecs pairs jsm after := by
  induction inTurn with
  | nil => exact .nil jobs clients
  | cons first _ induction =>
      obtain ⟨served, ⟨registered, waiting, watched⟩, isReady⟩ := first
      exact (ServedAll.single registered waiting watched isReady served).append
        (induction served.jobs served.clients)

/-- The matching stage serves the wait queues in the order of the walk. -/
theorem ends_tickReadyJobs (jobs : JobsOk kinds jsm) (clients : ClientsOk jsm)
    (readyExact : kinds .ready) (walk : TubeWalk) :
    (tickReadyJobs nowSecs walk jsm).Ends
      (fun resvs after => ∃ pairs,
        pairs = WaitingLine.serve jsm.readyOrder (walk.ready jsm.tubes.keys)
          (fun tubeName => (jsm.waitingAt tubeName).entries) ∧
        ServedAll kinds nowSecs pairs jsm after ∧
        resvs = matchedReservations jsm pairs)
      (fun _ _ => False) False := by
  obtain ⟨pairs, after, isPairs, inTurn, _, returns⟩ :=
    (serving_served readyExact).exists_tickReadyJobs readyExact ⟨jobs, clients⟩ walk
  rw [returns]
  exact ⟨pairs, isPairs, .of_inTurn jobs clients inTurn, rfl⟩

end Stage

end Coolbeans
