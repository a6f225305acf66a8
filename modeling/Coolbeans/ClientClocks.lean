import Coolbeans.DelayTimer

/-!
# The clocks of the clients

A tick attends to the clients at the front of the client heap, while their
clocks have passed.  This is enough because every operation keeps the clocks
early: the clock of a client is no later than its next deadline, and a client
that has a deadline is on the heap.
-/

namespace Coolbeans

open FiniteMap PositionHeap StatefulProgram

theorem Int64.toInt_sub_one {clock : Int64} (above : Int64.minValue < clock) :
    (clock - 1).toInt = clock.toInt - 1 := by
  have floor : Int64.minValue.toInt < clock.toInt := Int64.lt_iff_toInt_lt.mp above
  have ceiling := clock.toInt_lt
  have least : Int64.minValue.toInt = -2 ^ 63 := by decide
  have one : (1 : Int64).toInt = 1 := by decide
  rw [Int64.toInt_sub, one, Int.bmod_eq_of_le (by omega) (by omega)]

section ClientClock

variable {kinds : Kinds} {jsm : JSM} {cli : CliPtr} {id : JobID} {record : Job}

theorem JSM.tickAtFor_le_deadline (waiting : (jsm.clientAt cli).isWaitingForResv = true) :
    jsm.tickAtFor cli ≤ (jsm.clientAt cli).resvDeadlineAt := by
  unfold JSM.tickAtFor nextClientTickAt
  rw [if_pos waiting]
  exact minTime_le_right _ _

theorem minTime_le_left (first second : Int64) : minTime first second ≤ first := by
  unfold minTime
  split
  next => exact Int64.le_refl first
  next notLess => exact Int64.not_lt.mp notLess

theorem JobsOk.tickAtFor_lt_maxTime (inv : JobsOk kinds jsm) (reservedExact : kinds .reserved)
    (recorded : jsm.recordOf id = some record)
    (home : record.home = some (.reserved cli.cliID)) (below : record.expiresAt < maxTime)
    (bounded : (jsm.clientAt cli).isWaitingForResv = true →
      (jsm.clientAt cli).resvDeadlineAt < maxTime) : jsm.tickAtFor cli < maxTime := by
  by_cases waiting : (jsm.clientAt cli).isWaitingForResv = true
  · exact JSM.tickAtFor_lt_maxTime waiting (bounded waiting)
  · rcases inv.firstExpiry_cases reservedExact cli.cliID with
      ⟨_, nobody⟩ | ⟨_, first, _, _, isFirst, least⟩
    · exact absurd home (nobody id record recorded)
    · unfold JSM.tickAtFor nextClientTickAt
      rw [isFirst, if_neg waiting]
      dsimp only
      rw [if_neg waiting]
      exact Int64.lt_of_le_of_lt (Int64.le_trans (minTime_le_right _ _)
        (least id record recorded home)) below

/-- The clock of a client is no later than the expiry of its jobs, and earlier
if the client waits. -/
theorem JobsOk.tickAtFor_le (inv : JobsOk kinds jsm) (reservedExact : kinds .reserved)
    (above : ∀ id record, jsm.recordOf id = some record → record.state = .reserved →
      Int64.minValue < record.expiresAt)
    (recorded : jsm.recordOf id = some record)
    (home : record.home = some (.reserved cli.cliID)) :
    jsm.tickAtFor cli ≤ record.expiresAt ∧
      ((jsm.clientAt cli).isWaitingForResv = true →
        jsm.tickAtFor cli ≤ record.expiresAt - 1) := by
  rcases inv.firstExpiry_cases reservedExact cli.cliID with
    ⟨_, nobody⟩ | ⟨firstID, first, firstRecorded, firstHome, isFirst, least⟩
  · exact absurd home (nobody id record recorded)
  have firstAbove := above firstID first firstRecorded
    ((Job.home_eq_reserved_iff _ _).mp firstHome).1
  have recordAbove := above id record recorded ((Job.home_eq_reserved_iff _ _).mp home).1
  have notAfter := Int64.le_iff_toInt_le.mp (least id record recorded home)
  have firstSoon := Int64.toInt_sub_one firstAbove
  have recordSoon := Int64.toInt_sub_one recordAbove
  unfold JSM.tickAtFor nextClientTickAt
  rw [isFirst]
  dsimp only
  by_cases waiting : (jsm.clientAt cli).isWaitingForResv = true
  · rw [if_pos waiting, if_pos waiting]
    have early : minTime (minTime maxTime (first.expiresAt - 1))
        (jsm.clientAt cli).resvDeadlineAt ≤ first.expiresAt - 1 :=
      Int64.le_trans (minTime_le_left _ _) (minTime_le_right _ _)
    have early := Int64.le_iff_toInt_le.mp early
    refine ⟨Int64.le_iff_toInt_le.mpr (by omega), fun _ => Int64.le_iff_toInt_le.mpr (by omega)⟩
  · rw [if_neg waiting, if_neg waiting]
    refine ⟨Int64.le_trans (minTime_le_right _ _) (least id record recorded home), ?_⟩
    exact fun isWaiting => absurd isWaiting waiting

/-- The clock of a client does not get earlier when its jobs go. -/
theorem JobsOk.tickAtFor_mono {after : JSM} (inv : JobsOk kinds jsm)
    (invAfter : JobsOk kinds after) (reservedExact : kinds .reserved)
    (above : ∀ id record, jsm.recordOf id = some record → record.state = .reserved →
      Int64.minValue < record.expiresAt)
    (waiting : (after.clientAt cli).isWaitingForResv = (jsm.clientAt cli).isWaitingForResv)
    (deadline : (after.clientAt cli).resvDeadlineAt = (jsm.clientAt cli).resvDeadlineAt)
    (fewer : ∀ id record, after.recordOf id = some record →
      record.home = some (.reserved cli.cliID) → jsm.recordOf id = some record) :
    jsm.tickAtFor cli ≤ after.tickAtFor cli := by
  refine le_nextClientTickAt (fun isWaiting => ?_) fun expiresAt isFirst => ?_
  · rw [deadline]
    exact JSM.tickAtFor_le_deadline (waiting ▸ isWaiting)
  · rcases invAfter.firstExpiry_cases reservedExact cli.cliID with
      ⟨isNone, _⟩ | ⟨id, first, recorded, home, isSome, _⟩
    · rw [isNone] at isFirst
      cases isFirst
    · rw [isSome] at isFirst
      rw [← Option.some.inj isFirst, waiting]
      exact inv.tickAtFor_le reservedExact above (fewer id first recorded home) home

end ClientClock

/-! ## What a step does to the clocks -/

/-- The reserved jobs expire within a range, and their owners are registered. -/
def OwnersOk (range : Int64 → Prop) (jsm : JSM) : Prop :=
  ∀ id record, jsm.recordOf id = some record → record.state = .reserved →
    range record.expiresAt ∧ ∃ cli ∈ jsm.clients.entries, cli.cliID = record.reservedBy

/-- The clock of a client is early, and on the heap if it is ever to pass. -/
structure ClockOk (jsm : JSM) (cli : CliPtr) : Prop where
  early : (jsm.clientAt cli).tickAt ≤ jsm.tickAtFor cli
  onHeap : jsm.tickAtFor cli < maxTime → cli ∈ jsm.clientHeap

/-- The client and its clock are as they were, and it has got no new job. -/
structure Undisturbed (cli : CliPtr) (before after : JSM) : Prop where
  registered : cli ∈ before.clients.entries
  waiting : (after.clientAt cli).isWaitingForResv = (before.clientAt cli).isWaitingForResv
  deadline : (after.clientAt cli).resvDeadlineAt = (before.clientAt cli).resvDeadlineAt
  tickAt : (after.clientAt cli).tickAt = (before.clientAt cli).tickAt
  onHeap : cli ∈ before.clientHeap → cli ∈ after.clientHeap
  fewer : ∀ id record, after.recordOf id = some record →
    record.home = some (.reserved cli.cliID) → before.recordOf id = some record

/-- What each stage of an operation does to the clocks: who is disturbed gets a
new clock, and who is forgotten needs none. -/
structure ClockStep (range : Int64 → Prop) (before after : JSM) : Prop where
  reserved : ∀ id record, after.recordOf id = some record → record.state = .reserved →
    before.recordOf id = some record ∨
      range record.expiresAt ∧ ∃ cli ∈ after.clients.entries, cli.cliID = record.reservedBy
  dropped : ∀ cli ∈ before.clients.entries, cli ∉ after.clients.entries →
    (after.clientAt cli).isWaitingForResv = false ∧ ¬ after.tickAtFor cli < maxTime
  clock : ∀ cli ∈ after.clients.entries, ClockOk after cli ∨ Undisturbed cli before after

section Steps

variable {kinds : Kinds} {range : Int64 → Prop} {before middle after : JSM} {cli : CliPtr}

theorem Undisturbed.trans (first : Undisturbed cli before middle)
    (second : Undisturbed cli middle after) : Undisturbed cli before after where
  registered := first.registered
  waiting := second.waiting.trans first.waiting
  deadline := second.deadline.trans first.deadline
  tickAt := second.tickAt.trans first.tickAt
  onHeap := fun onHeap => second.onHeap (first.onHeap onHeap)
  fewer := fun id record recorded home =>
    first.fewer id record (second.fewer id record recorded home) home

theorem ClockStep.ownersOk (step : ClockStep range before after) (jobs : JobsOk kinds after)
    (reservedExact : kinds .reserved) (below : ∀ clock, range clock → clock < maxTime)
    (ok : OwnersOk range before) : OwnersOk range after := by
  intro id record recorded isReserved
  rcases step.reserved id record recorded isReserved with old | new
  · obtain ⟨inRange, cli, registered, isOwner⟩ := ok id record old isReserved
    refine ⟨inRange, cli, ?_, isOwner⟩
    by_contra forgotten
    obtain ⟨idle, never⟩ := step.dropped cli registered forgotten
    refine never (jobs.tickAtFor_lt_maxTime reservedExact recorded
      ((Job.home_eq_reserved_iff _ _).mpr ⟨isReserved, isOwner.symm⟩) (below _ inRange) ?_)
    simp [idle]
  · exact new

theorem ClockStep.clocksOk (step : ClockStep range before after) (jobs : JobsOk kinds before)
    (jobsAfter : JobsOk kinds after) (reservedExact : kinds .reserved)
    (above : ∀ clock, range clock → Int64.minValue < clock) (owners : OwnersOk range before)
    (ok : ∀ cli ∈ before.clients.entries, ClockOk before cli) :
    ∀ cli ∈ after.clients.entries, ClockOk after cli := by
  intro cli registered
  rcases step.clock cli registered with fresh | kept
  · exact fresh
  · have old := ok cli kept.registered
    have later := jobs.tickAtFor_mono jobsAfter reservedExact
      (fun id record recorded isReserved => above _ (owners id record recorded isReserved).1)
      kept.waiting kept.deadline kept.fewer
    refine ⟨?_, fun early => ?_⟩
    · rw [kept.tickAt]
      exact Int64.le_trans old.early later
    · exact kept.onHeap (old.onHeap (Int64.lt_of_le_of_lt later early))

/-- A step that only moves jobs, none of them into a reservation. -/
theorem ClockStep.of_jobs (clients : after.clientView = before.clientView)
    (records : ∀ id record, after.recordOf id = some record → record.state = .reserved →
      before.recordOf id = some record) : ClockStep range before after := by
  obtain ⟨sameClients, sameHeap, clientAt, _⟩ := JSM.fields_of_clientView clients
  refine ⟨fun id record recorded isReserved => Or.inl (records id record recorded isReserved),
    fun cli registered forgotten => ?_, fun cli registered => Or.inr ?_⟩
  · exact absurd (sameClients ▸ registered) forgotten
  · exact
      { registered := sameClients ▸ registered
        waiting := by rw [clientAt]
        deadline := by rw [clientAt]
        tickAt := by rw [clientAt]
        onHeap := fun onHeap => sameHeap ▸ onHeap
        fewer := fun id record recorded home =>
          records id record recorded ((Job.home_eq_reserved_iff _ _).mp home).1 }

/-- A client that was disturbed before it got a new clock. -/
theorem ClockStep.of_disturbed (step : ClockStep range middle after)
    (entries : ∀ other ∈ before.clients.entries, other ∈ middle.clients.entries)
    (others : ∀ other ∈ middle.clients.entries, other ≠ cli → Undisturbed other before middle)
    (own : cli ∈ after.clients.entries → ClockOk after cli)
    (reserved : ∀ id record, middle.recordOf id = some record → record.state = .reserved →
      before.recordOf id = some record ∨
        range record.expiresAt ∧ ∃ cli ∈ after.clients.entries, cli.cliID = record.reservedBy) :
    ClockStep range before after := by
  refine ⟨fun id record recorded isReserved => ?_, fun other registered => ?_,
    fun other registered => ?_⟩
  · rcases step.reserved id record recorded isReserved with old | new
    · exact reserved id record old isReserved
    · exact Or.inr new
  · exact step.dropped other (entries other registered)
  · by_cases isCli : other = cli
    · subst other
      exact Or.inl (own registered)
    · rcases step.clock other registered with fresh | kept
      · exact Or.inl fresh
      · exact Or.inr ((others other kept.registered isCli).trans kept)

theorem Rescheduled.clockOk (rescheduled : Rescheduled cli (before.tickAtFor cli) before after) :
    ClockOk after cli := by
  have content := rescheduled.content cli
  rw [if_pos rfl] at content
  have tickAt : (after.clientAt cli).tickAt = before.tickAtFor cli :=
    (ClientResvEntry.fields_of_content_eq content).2.2.2.1
  have heap := rescheduled.heap cli
  rw [if_pos rfl] at heap
  refine ⟨?_, ?_⟩ <;> rw [rescheduled.tickAtFor]
  · rw [tickAt]
    exact Int64.le_refl _
  · exact heap.mpr

theorem Rescheduled.clockStep (clientsOk : ClientsOk before)
    (registered : cli ∈ before.clients.entries)
    (rescheduled : Rescheduled cli (before.tickAtFor cli) before after) :
    ClockStep range before after := by
  refine ⟨fun id record recorded _ => Or.inl ?_, fun other isOld forgotten => ?_,
    fun other isKept => ?_⟩
  · rwa [rescheduled.frame.recordOf] at recorded
  · have entries := rescheduled.entries
    split at entries
    next => exact absurd (entries ▸ isOld) forgotten
    next never =>
      have isCli : other = cli := by
        by_contra different
        refine forgotten (entries ▸ List.mem_filter.mpr ⟨isOld, ?_⟩)
        simpa using different
      subst other
      rw [not_or] at never
      refine ⟨?_, rescheduled.tickAtFor ▸ never.1⟩
      have content := rescheduled.content cli
      rw [if_pos rfl] at content
      rw [(ClientResvEntry.fields_of_content_eq content).2.2.1, Bool.eq_false_iff]
      exact fun waiting => never.1 (JSM.tickAtFor_lt_maxTime waiting
        (clientsOk.deadline cli registered waiting))
  · by_cases isCli : other = cli
    · subst other
      exact Or.inl rescheduled.clockOk
    · have content := rescheduled.content other
      rw [if_neg isCli] at content
      obtain ⟨_, deadline, waiting, tickAt, _⟩ := ClientResvEntry.fields_of_content content
      refine Or.inr ⟨rescheduled.subset other isKept, waiting, deadline, tickAt, ?_, ?_⟩
      · rw [rescheduled.heap, if_neg isCli]
        exact id
      · intro id record recorded _
        rwa [rescheduled.frame.recordOf] at recorded

theorem Asked.undisturbed {reqID : ReqID} {watchedTubes : List TubeName}
    {resvDeadlineAt : Int64} {queues : TubeName → List CliPtr}
    (asked : Asked cli reqID watchedTubes resvDeadlineAt queues before after) {other : CliPtr}
    (registered : other ∈ after.clients.entries) (different : other ≠ cli) :
    Undisturbed other before after := by
  have content := asked.content other
  rw [if_neg different] at content
  obtain ⟨_, deadline, waiting, tickAt, _⟩ := ClientResvEntry.fields_of_content content
  refine ⟨?_, waiting, deadline, tickAt, ?_, ?_⟩
  · rw [asked.entries] at registered
    split at registered
    · exact registered
    · exact (List.mem_append.mp registered).resolve_right (by simpa using different)
  · rw [asked.clientHeap]
    exact id
  · intro id record recorded _
    rwa [asked.frame.recordOf] at recorded

theorem ServedAll.clockStep {nowSecs : Int64} {pairs : List (CliPtr × Job)}
    (served : ServedAll kinds nowSecs pairs before after) (reservedExact : kinds .reserved)
    (below : ∀ clock, range clock → clock < maxTime)
    (inRange : ∀ pair ∈ pairs, range (nowSecs + pair.2.ttr)) : ClockStep range before after := by
  have clock : ∀ pair ∈ pairs, ClockOk after pair.1 := by
    intro pair member
    have heap := served.heap pair.1
    rw [if_pos (List.mem_map_of_mem member), served.tickAt reservedExact pair member] at heap
    exact ⟨served.tickAt reservedExact pair member ▸ Int64.le_refl _, heap.mpr⟩
  have idle : ∀ cli ∈ pairs.map Prod.fst, (after.clientAt cli).isWaitingForResv = false :=
    fun cli member => served.not_waiting member
  -- the owner of a job that has just been reserved is not forgotten
  have owner : ∀ pair ∈ pairs, pair.1 ∈ after.clients.entries := by
    intro pair member
    rw [served.entries, List.mem_filter, decide_eq_true_eq, served.tickAt reservedExact pair member]
    refine ⟨(served.wasWaiting pair member).1, Or.inr (Or.inl ?_)⟩
    refine served.jobs.tickAtFor_lt_maxTime reservedExact (served.served pair member) ?_ ?_ ?_
    · exact (Job.home_eq_reserved_iff _ _).mpr (by simp [Job.reservedFor])
    · simpa [Job.reservedFor] using below _ (inRange pair member)
    · simp [idle pair.1 (List.mem_map_of_mem member)]
  refine ⟨fun id record recorded isReserved => ?_, fun cli registered forgotten => ?_,
    fun cli registered => ?_⟩
  · by_cases isServed : id ∈ pairs.map fun pair => pair.2.id
    · obtain ⟨pair, inside, rfl⟩ := List.mem_map.mp isServed
      rw [served.served pair inside] at recorded
      rw [← Option.some.inj recorded]
      refine Or.inr ⟨by simpa [Job.reservedFor] using inRange pair inside, pair.1,
        owner pair inside, by simp [Job.reservedFor]⟩
    · rw [served.unserved id isServed] at recorded
      exact Or.inl recorded
  · rw [served.entries, List.mem_filter, decide_eq_true_eq] at forgotten
    have dropped := not_and.mp forgotten registered
    rw [not_or, not_or, Classical.not_not] at dropped
    obtain ⟨pair, inside, rfl⟩ := List.mem_map.mp dropped.1
    refine ⟨idle _ dropped.1, ?_⟩
    rw [← served.tickAt reservedExact pair inside]
    exact dropped.2.1
  · by_cases isServed : cli ∈ pairs.map Prod.fst
    · obtain ⟨pair, inside, rfl⟩ := List.mem_map.mp isServed
      exact Or.inl (clock pair inside)
    · obtain ⟨_, deadline, waiting, tickAt, _⟩ :=
        ClientResvEntry.fields_of_content (served.others cli isServed)
      have wasRegistered := served.registered_before registered
      refine Or.inr ⟨wasRegistered, waiting, deadline, tickAt, ?_,
        fun id record recorded home => ?_⟩
      · rw [served.heap, if_neg isServed]
        exact id
      · by_cases jobServed : id ∈ pairs.map fun pair => pair.2.id
        · obtain ⟨pair, inside, rfl⟩ := List.mem_map.mp jobServed
          rw [served.served pair inside] at recorded
          rw [← Option.some.inj recorded] at home
          have isOwner : pair.1.cliID = cli.cliID := by
            simpa [Job.reservedFor] using ((Job.home_eq_reserved_iff _ _).mp home).2
          have same := before.clients.eq_of_cliID_eq (served.wasWaiting pair inside).1
            wasRegistered isOwner
          exact absurd (same ▸ List.mem_map_of_mem inside) isServed
        · rwa [served.unserved id jobServed] at recorded

theorem ClientsTicked.clockStep {nowSecs : Int64} {processed : List CliPtr}
    {resvs : List Reservation}
    (ticked : ClientsTicked kinds nowSecs processed resvs before after)
    (reservedExact : kinds .reserved) : ClockStep range before after := by
  have old : ∀ id record, after.recordOf id = some record → record.state = .reserved →
      before.recordOf id = some record := by
    intro id record recorded isReserved
    rcases ticked.released id with same | ⟨_, _, _, isReleased⟩
    · rwa [same] at recorded
    · rw [isReleased] at recorded
      simp [← Option.some.inj recorded, Job.released] at isReserved
  refine ⟨fun id record recorded isReserved => Or.inl (old id record recorded isReserved),
    fun cli registered forgotten => absurd (ticked.entries ▸ registered) forgotten,
    fun cli registered => ?_⟩
  by_cases isProcessed : cli ∈ processed
  · have heap := ticked.heap cli
    rw [if_pos isProcessed, ticked.tickAt reservedExact cli isProcessed] at heap
    exact Or.inl ⟨ticked.tickAt reservedExact cli isProcessed ▸ Int64.le_refl _, heap.mpr⟩
  · obtain ⟨_, deadline, waiting, tickAt, _⟩ :=
      ClientResvEntry.fields_of_content (ticked.others cli isProcessed)
    refine Or.inr ⟨ticked.entries ▸ registered, waiting, deadline, tickAt, ?_,
      fun id record recorded home =>
        old id record recorded ((Job.home_eq_reserved_iff _ _).mp home).1⟩
    rw [ticked.heap, if_neg isProcessed]
    exact id

end Steps

/-! ## Every operation -/

/-- The clock at which an operation reserves jobs. -/
def Op.reservesAt? : Op → Option Int64
  | .touch nowSeconds _ _ | .appendReservation _ _ _ nowSeconds _ | .tick nowSeconds _ =>
      some nowSeconds
  | _ => none

/-- A reservation that the operation can make expires within the range. -/
def ExpiresWithin (range : Int64 → Prop) (jsm : JSM) (op : Op) : Prop :=
  ∀ clock, op.reservesAt? = some clock → ∀ id record, jsm.recordOf id = some record →
    range (clock + record.ttr)

-- The instances are named, since all of `Int64` and `UInt64` could be searched instead.
instance (range : Int64 → Prop) [DecidablePred range] (jsm : JSM) (op : Op) :
    Decidable (ExpiresWithin range jsm op) :=
  @decidable_of_iff _ (∀ clock ∈ op.reservesAt?, ∀ id ∈ jsm.jobs.keys,
      ∀ record ∈ jsm.recordOf id, range (clock + record.ttr))
    ⟨fun within clock reserves id record recorded =>
        within clock reserves id (JSM.mem_keys_of_recordOf recorded) record recorded,
      fun within clock reserves id _ record recorded =>
        within clock reserves id record recorded⟩
    (@Option.decidableForallMem _ _ (fun _ =>
      @List.decidableBAll _ _ (fun _ => Option.decidableForallMem _) _) _)

section Operations

variable {kinds : Kinds} {range : Int64 → Prop} {before after : JSM}

theorem Moved.clockStep {id : JobID} {record next : Job}
    (moved : Moved kinds id record next before after) (left : next.state ≠ .reserved) :
    ClockStep range before after := by
  refine .of_jobs moved.frame.clients fun other found recorded isReserved => ?_
  rw [moved.records] at recorded
  split at recorded
  · exact absurd (Option.some.inj recorded ▸ isReserved) left
  · exact recorded

theorem DelayDone.reserved_before {now : Int64} (done : DelayDone kinds now before after)
    {id : JobID} {record : Job} (recorded : after.recordOf id = some record)
    (isReserved : record.state = .reserved) : before.recordOf id = some record := by
  rw [done.records] at recorded
  obtain ⟨old, wasRecorded, isRecord⟩ := Option.map_eq_some_iff.mp recorded
  unfold Job.wake at isRecord
  split at isRecord
  · split at isRecord
    · simp [← isRecord] at isReserved
    · rw [wasRecorded, isRecord]
  · rw [wasRecorded, isRecord]

theorem DelayDone.ttr_before {now : Int64} (done : DelayDone kinds now before after)
    {id : JobID} {record : Job} (recorded : after.recordOf id = some record) :
    ∃ old, before.recordOf id = some old ∧ old.ttr = record.ttr := by
  rw [done.records] at recorded
  obtain ⟨old, wasRecorded, isRecord⟩ := Option.map_eq_some_iff.mp recorded
  refine ⟨old, wasRecorded, ?_⟩
  rw [← isRecord]
  unfold Job.wake
  split
  · split <;> simp
  · rfl

theorem Effect.clockStep_touched {nowSeconds : Int64} {jobID : JobID} {clientID : ClientID}
    {record : Job} {middle : JSM} {cli : CliPtr} (clientsOk : ClientsOk before)
    (reservedExact : kinds .reserved) (below : ∀ clock, range clock → clock < maxTime)
    (inRange : range (nowSeconds + record.ttr)) (owned : record.OwnedBy clientID)
    (owner : record.reservedBy = clientID)
    (moved : Moved kinds jobID record (record.updateReservation nowSeconds) before middle)
    (registered : cli ∈ middle.clients.entries) (named : cli.cliID = clientID)
    (rescheduled : Rescheduled cli (middle.tickAtFor cli) middle after) :
    ClockStep range before after := by
  obtain ⟨sameClients, sameHeap, clientAt, _⟩ := JSM.fields_of_clientView moved.frame.clients
  have middleOk := clientsOk.of_clientView moved.frame.clients
  have touched : middle.recordOf jobID = some (record.updateReservation nowSeconds) := by
    rw [moved.records, if_pos rfl]
  have home : (record.updateReservation nowSeconds).home = some (.reserved cli.cliID) :=
    (Job.home_eq_reserved_iff _ _).mpr ⟨by simpa using owned.1, by simp [owner, named]⟩
  have kept : cli ∈ after.clients.entries := by
    rw [rescheduled.entries, if_pos]
    · exact registered
    · exact Or.inl (moved.inv.tickAtFor_lt_maxTime reservedExact touched home
        (by simpa using below _ inRange) (middleOk.deadline cli registered))
  refine (rescheduled.clockStep middleOk registered).of_disturbed
    (fun other isOld => sameClients ▸ isOld) (fun other isOther different => ?_)
    (fun _ => rescheduled.clockOk) fun id found recorded isReserved => ?_
  · refine
      { registered := sameClients ▸ isOther
        waiting := by rw [clientAt]
        deadline := by rw [clientAt]
        tickAt := by rw [clientAt]
        onHeap := fun onHeap => sameHeap ▸ onHeap
        fewer := fun id found recorded isHome => ?_ }
    rw [moved.records] at recorded
    split at recorded
    · rw [← Option.some.inj recorded, home] at isHome
      have sameId : cli.cliID = other.cliID := by simpa using isHome
      exact absurd (middle.clients.eq_of_cliID_eq isOther registered sameId.symm) different
    · exact recorded
  · rw [moved.records] at recorded
    split at recorded
    · rw [← Option.some.inj recorded]
      exact Or.inr ⟨by simpa using inRange, cli, kept, by simp [owner, named]⟩
    · exact Or.inl recorded

theorem Appended.clockStep {clientId : ClientID} {reqID : ReqID} {watchedTubes : List TubeName}
    {nowSecs resvDeadlineAt : Int64} {resv : Reservation} {cli : CliPtr} {middle : JSM}
    (jobs : JobsOk kinds before) (readyExact : kinds .ready) (reservedExact : kinds .reserved)
    (below : ∀ clock, range clock → clock < maxTime)
    (inRange : ∀ id record, before.recordOf id = some record → range (nowSecs + record.ttr))
    (appended : Appended kinds clientId reqID watchedTubes nowSecs resvDeadlineAt resv cli
      before middle after) : ClockStep range before after := by
  have entries : ∀ other ∈ before.clients.entries, other ∈ middle.clients.entries := by
    intro other isOld
    rw [appended.asked.entries]
    split
    · exact isOld
    · exact List.mem_append_left _ isOld
  have others : ∀ other ∈ middle.clients.entries, other ≠ cli →
      Undisturbed other before middle :=
    fun other registered different => appended.asked.undisturbed registered different
  have records : ∀ id record, middle.recordOf id = some record → record.state = .reserved →
      before.recordOf id = some record ∨
        range record.expiresAt ∧ ∃ cli ∈ after.clients.entries,
          cli.cliID = record.reservedBy := by
    intro id record recorded _
    rw [appended.asked.frame.recordOf] at recorded
    exact Or.inl recorded
  rcases appended.outcome with ⟨_, _, rescheduled⟩ | ⟨tubeName, watched, entry, head, served, _⟩
  · exact (rescheduled.clockStep appended.clientsMiddle appended.asked.registered).of_disturbed
      entries others (fun _ => rescheduled.clockOk) records
  · obtain ⟨recorded, home⟩ := jobs.recordOf_jobOf (.ready tubeName) readyExact
      (List.mem_of_head? head)
    obtain ⟨isReady, inTube⟩ := (Job.home_eq_ready_iff _ _).mp home
    obtain ⟨isWatched, _, isWaiting, _⟩ := appended.asked.entry
    have single := ServedAll.single appended.asked.registered isWaiting
      (by rw [isWatched, inTube]; exact watched) isReady served
    have step : ClockStep range middle after := single.clockStep reservedExact below
      fun pair member => by
        rw [List.mem_singleton.mp member]
        exact inRange _ _ recorded
    refine step.of_disturbed entries others (fun registered => ?_) records
    have heap := single.heap cli
    have tickAt := single.tickAt reservedExact (cli, before.jobOf entry)
      (List.mem_singleton.mpr rfl)
    rw [if_pos (by simp), tickAt] at heap
    exact ⟨tickAt ▸ Int64.le_refl _, heap.mpr⟩

/-- What every stage keeps, every operation keeps. -/
theorem Effect.keeps_clocks {op : Op} {answer : Answer}
    (effect : Effect kinds before op answer after) (invariant : JSM → Prop)
    (ok : ContainersOk kinds before)
    (readyExact : kinds .ready) (reservedExact : kinds .reserved)
    (below : ∀ clock, range clock → clock < maxTime) (inRange : ExpiresWithin range before op)
    (touchesOwn : TouchesOwn before op) (owners : OwnersOk range before)
    (keeps : ∀ first second, JobsOk kinds first → JobsOk kinds second →
      ClockStep range first second → OwnersOk range first → invariant first → invariant second)
    (holds : invariant before) : invariant after := by
  have direct : ClockStep range before after → invariant after :=
    fun step => keeps before after ok.jobs (effect.jobsOk ok.jobs) step owners holds
  cases effect with
  | refused same =>
      refine direct (.of_jobs same.frame.clients fun id record recorded _ => ?_)
      rwa [same.recordOf] at recorded
  | looked => exact holds
  | @put _ _ delay _ _ _ _ _ _ done records =>
      refine direct (.of_jobs done.clients fun id record recorded isReserved => ?_)
      rw [records] at recorded
      split at recorded
      · rw [← Option.some.inj recorded] at isReserved
        by_cases positive : 0 < delay <;> simp [positive] at isReserved
      · exact recorded
  | putTaken _ done records =>
      exact direct (.of_jobs done.clients fun id record recorded _ => records id ▸ recorded)
  | deleted deleted =>
      refine direct (.of_jobs deleted.frame.clients fun id record recorded _ => ?_)
      rw [deleted.records] at recorded
      split at recorded
      · cases recorded
      · exact recorded
  | givenUp _ _ done =>
      refine direct (.of_jobs done.clients fun id record recorded isReserved => ?_)
      rw [done.records] at recorded
      split at recorded
      · exact absurd (Option.some.inj recorded ▸ isReserved) done.left
      · exact recorded
  | kicked _ moved => exact direct (moved.clockStep (by simp [Job.kicked]))
  | kickedSome kicked =>
      refine direct (.of_jobs kicked.frame.clients fun id record recorded isReserved => ?_)
      rcases kicked.records id with same | ⟨old, _, _, isKicked⟩
      · rwa [same] at recorded
      · rw [isKicked] at recorded
        simp [← Option.some.inj recorded, Job.kicked] at isReserved
  | touched owned moved registered named rescheduled =>
      exact direct (Effect.clockStep_touched ok.clients reservedExact below
        (inRange _ rfl _ _ moved.was) owned (touchesOwn _ moved.was owned) moved registered named
        rescheduled)
  | touchedOrphan owned moved orphan =>
      obtain ⟨_, cli, registered, isOwner⟩ := owners _ _ moved.was owned.1
      exact absurd (isOwner.trans (touchesOwn _ moved.was owned)) (orphan cli registered)
  | appended _ appended =>
      exact direct (appended.clockStep ok.jobs readyExact reservedExact below (inRange _ rfl))
  | ticked done =>
      have first : ClockStep range before _ := .of_jobs done.delay.clients
        fun id record recorded isReserved => done.delay.reserved_before recorded isReserved
      have second := done.ready.clockStep reservedExact below fun pair member => by
        obtain ⟨old, wasRecorded, sameTtr⟩ :=
          done.delay.ttr_before (done.ready.wasReady pair member).1
        exact sameTtr ▸ inRange _ rfl _ old wasRecorded
      have third : ClockStep range _ after := done.clients.clockStep reservedExact
      have wokenOwners := first.ownersOk done.delay.jobs reservedExact below owners
      have servedOwners := second.ownersOk done.ready.jobs reservedExact below wokenOwners
      have woken := keeps _ _ ok.jobs done.delay.jobs first owners holds
      have served := keeps _ _ done.delay.jobs done.ready.jobs second wokenOwners woken
      exact keeps _ _ done.ready.jobs done.clients.jobs third servedOwners served

/-- The invariant of the clocks, for reservations that expire within a range. -/
structure ClocksOk (range : Int64 → Prop) (jsm : JSM) : Prop where
  owners : OwnersOk range jsm
  clock : ∀ cli ∈ jsm.clients.entries, ClockOk jsm cli

theorem Effect.ownersOk {op : Op} {answer : Answer} (effect : Effect kinds before op answer after)
    (ok : ContainersOk kinds before) (readyExact : kinds .ready) (reservedExact : kinds .reserved)
    (below : ∀ clock, range clock → clock < maxTime) (inRange : ExpiresWithin range before op)
    (touchesOwn : TouchesOwn before op) (owners : OwnersOk range before) :
    OwnersOk range after :=
  effect.keeps_clocks (OwnersOk range) ok readyExact reservedExact below inRange touchesOwn owners
    (fun _ _ _ jobs step first _ => step.ownersOk jobs reservedExact below first) owners

theorem Effect.clocksOk {op : Op} {answer : Answer} (effect : Effect kinds before op answer after)
    (ok : ContainersOk kinds before) (readyExact : kinds .ready) (reservedExact : kinds .reserved)
    (below : ∀ clock, range clock → clock < maxTime)
    (above : ∀ clock, range clock → Int64.minValue < clock)
    (inRange : ExpiresWithin range before op) (touchesOwn : TouchesOwn before op)
    (clocks : ClocksOk range before) : ClocksOk range after := by
  refine ⟨effect.ownersOk ok readyExact reservedExact below inRange touchesOwn clocks.owners, ?_⟩
  exact effect.keeps_clocks (fun jsm => ∀ cli ∈ jsm.clients.entries, ClockOk jsm cli) ok
    readyExact reservedExact below inRange touchesOwn clocks.owners
    (fun first second jobs jobsAfter step owners clock =>
      step.clocksOk jobs jobsAfter reservedExact above owners clock) clocks.clock

end Operations

end Coolbeans
