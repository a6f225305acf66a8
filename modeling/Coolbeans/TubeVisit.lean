import Coolbeans.MatchSteps
import Coolbeans.WaitingLine
import Mathlib.Data.List.Sort

/-!
# Visiting the tubes

`tickReadyJobs` visits the tubes in turn and hands the ready jobs of each, in their order, to the
clients in its wait queue, in theirs; a client that gets a job leaves every wait queue.  This is
what `WaitingLine.serve` computes.  The loops are the same whatever else is known of the clients,
so they are treated here once, for every notion of service that hands a job to a client.
-/

namespace Coolbeans

open FiniteMap PositionHeap StatefulProgram

/-! ## The ready jobs of a tube in order -/

/-- The ready jobs of a tube, in the order in which they are handed out. -/
def JSM.readyOrder (jsm : JSM) (tubeName : TubeName) : List Job :=
  ((jsm.heapAt (.ready tubeName)).map jsm.jobOf).insertionSort fun first second =>
    (HeapKey.ready tubeName).sortKey first ≤ (HeapKey.ready tubeName).sortKey second

section ReadyOrder

variable {kinds : Kinds} {jsm : JSM} {tubeName : TubeName}

theorem JobsOk.mem_readyOrder (inv : JobsOk kinds jsm) (readyExact : kinds .ready)
    (record : Job) :
    record ∈ jsm.readyOrder tubeName ↔
      jsm.recordOf record.id = some record ∧ record.home = some (.ready tubeName) := by
  unfold JSM.readyOrder
  rw [List.mem_insertionSort, List.mem_map]
  constructor
  · rintro ⟨entry, member, rfl⟩
    exact inv.recordOf_jobOf (.ready tubeName) readyExact member
  · rintro ⟨recorded, home⟩
    exact inv.exists_entry recorded home readyExact

theorem JobsOk.readyOrder_sorted (inv : JobsOk kinds jsm) (readyExact : kinds .ready)
    (tubeName : TubeName) :
    (jsm.readyOrder tubeName).Pairwise fun first second =>
      (HeapKey.ready tubeName).sortKey first < (HeapKey.ready tubeName).sortKey second := by
  let le : Job → Job → Prop := fun first second =>
    (HeapKey.ready tubeName).sortKey first ≤ (HeapKey.ready tubeName).sortKey second
  have total : Std.Total le := ⟨fun first second => le_total _ _⟩
  have transitive : IsTrans Job le := ⟨fun first second third => le_trans⟩
  have sorted : (jsm.readyOrder tubeName).Pairwise le := List.pairwise_insertionSort le _
  have nodup : (jsm.readyOrder tubeName).Nodup := by
    unfold JSM.readyOrder
    rw [(List.perm_insertionSort _ _).nodup_iff]
    refine (inv.tracked (.ready tubeName)).nodup.map_on fun first firstMember second
      secondMember same => ?_
    obtain ⟨_, indexed, _⟩ := inv.exact (.ready tubeName) first readyExact firstMember
    have isKind : kinds (HeapKey.ready tubeName).kind := readyExact
    have named := (inv.eq_entry indexed isKind secondMember (by rw [same])).1
    exact Option.some.inj named
  refine (sorted.and nodup).imp_of_mem ?_
  rintro first second firstMember secondMember ⟨notAfter, different⟩
  refine lt_of_le_of_ne notAfter fun same => different ?_
  have firstRecorded := ((inv.mem_readyOrder readyExact first).mp firstMember).1
  have secondRecorded := ((inv.mem_readyOrder readyExact second).mp secondMember).1
  rw [HeapKey.id_of_sortKey _ same, secondRecorded] at firstRecorded
  exact (Option.some.inj firstRecorded).symm

theorem JobsOk.readyOrder_eq (inv : JobsOk kinds jsm) (readyExact : kinds .ready)
    {records : List Job}
    (sorted : records.Pairwise fun first second =>
      (HeapKey.ready tubeName).sortKey first < (HeapKey.ready tubeName).sortKey second)
    (members : ∀ record, record ∈ records ↔
      jsm.recordOf record.id = some record ∧ record.home = some (.ready tubeName)) :
    jsm.readyOrder tubeName = records := by
  have ownSorted := inv.readyOrder_sorted readyExact tubeName
  refine List.Perm.eq_of_pairwise ?_ ownSorted sorted ?_
  · intro first second _ _ before after
    exact absurd before (lt_asymm after)
  · refine (List.perm_ext_iff_of_nodup ?_ ?_).mpr fun record => ?_
    · exact ownSorted.imp fun less => by rintro rfl; exact lt_irrefl _ less
    · exact sorted.imp fun less => by rintro rfl; exact lt_irrefl _ less
    · rw [inv.mem_readyOrder readyExact, members]

theorem JobsOk.readyOrder_congr {other : JSM} (inv : JobsOk kinds jsm)
    (otherInv : JobsOk kinds other) (readyExact : kinds .ready)
    (same : ∀ id record, record.home = some (.ready tubeName) →
      (other.recordOf id = some record ↔ jsm.recordOf id = some record)) :
    other.readyOrder tubeName = jsm.readyOrder tubeName := by
  refine otherInv.readyOrder_eq readyExact (inv.readyOrder_sorted readyExact tubeName)
    fun record => ?_
  rw [inv.mem_readyOrder readyExact]
  constructor
  · rintro ⟨recorded, home⟩
    exact ⟨(same _ record home).mpr recorded, home⟩
  · rintro ⟨recorded, home⟩
    exact ⟨(same _ record home).mp recorded, home⟩

theorem JobsOk.readyOrder_eq_nil (inv : JobsOk kinds jsm) (readyExact : kinds .ready)
    (empty : jsm.heapAt (.ready tubeName) = []) : jsm.readyOrder tubeName = [] := by
  rw [List.eq_nil_iff_forall_not_mem]
  intro record member
  obtain ⟨recorded, home⟩ := (inv.mem_readyOrder readyExact record).mp member
  exact inv.home_ne_of_empty (.ready tubeName) readyExact empty recorded home

end ReadyOrder

/-! ## Handing out jobs -/

/-- A ready job has been handed to a client, which has left every wait queue. -/
structure Handed (kinds : Kinds) (nowSecs : Int64) (cli : CliPtr) (job : Job)
    (before after : JSM) : Prop where
  jobs : JobsOk kinds after
  was : before.recordOf job.id = some job
  wasReady : job.state = .ready
  records : ∀ other, after.recordOf other =
    if other = job.id then some (job.reservedFor nowSecs cli.cliID) else before.recordOf other
  reqID : ∀ other, (after.clientAt other).reqID = (before.clientAt other).reqID
  waits : WaitsKept (· = cli) before after
  queues : ∀ tubeName, (after.waitingAt tubeName).entries =
    (before.waitingAt tubeName).entries.filter (· ≠ cli)
  shrinks : ∀ tubeName, job.home = some (.ready tubeName) →
    (after.heapAt (.ready tubeName)).length + 1 = (before.heapAt (.ready tubeName)).length
  tubes : ∀ tubeName, before.hasTube tubeName = true → after.hasTube tubeName = true

theorem Served.handed {kinds : Kinds} {nowSecs : Int64} {cli : CliPtr} {job : Job}
    {before after : JSM} (served : Served kinds nowSecs cli job before after)
    (isReady : job.state = .ready) : Handed kinds nowSecs cli job before after where
  jobs := served.jobs
  was := served.was
  wasReady := isReady
  records := served.records
  reqID other := by
    have content := served.content other
    split at content
    next same =>
      rw [same] at content ⊢
      exact (ClientResvEntry.fields_of_content_eq content).2.2.2.2
    next => exact (ClientResvEntry.fields_of_content content).2.2.2.2
  waits := by
    constructor
    · intro other different
      have content := served.content other
      rw [if_neg different] at content
      exact (ClientResvEntry.fields_of_content content).2.2.1
    · intro other member _
      rw [served.entries] at member
      split at member
      · exact member
      · exact (List.mem_filter.mp member).1
  queues := served.queues
  shrinks := served.shrinks
  tubes := served.tubes

/-- The clients are served one after the other, each with the job beside it. -/
inductive InTurn (serves : CliPtr → Job → JSM → JSM → Prop) :
    List (CliPtr × Job) → JSM → JSM → Prop where
  | nil {jsm : JSM} : InTurn serves [] jsm jsm
  | cons {cli : CliPtr} {job : Job} {pairs : List (CliPtr × Job)} {before middle after : JSM}
      (first : serves cli job before middle) (rest : InTurn serves pairs middle after) :
      InTurn serves ((cli, job) :: pairs) before after

theorem InTurn.append {serves : CliPtr → Job → JSM → JSM → Prop} {pairs later : List (CliPtr × Job)}
    {before middle after : JSM} (first : InTurn serves pairs before middle)
    (second : InTurn serves later middle after) : InTurn serves (pairs ++ later) before after := by
  induction first with
  | nil => exact second
  | cons serves _ induction => exact .cons serves (induction second)

/-- The listed clients have got the jobs beside them and have left every wait queue, and
nothing else has happened to the jobs and the queues. -/
structure HandedAll (nowSecs : Int64) (pairs : List (CliPtr × Job)) (before after : JSM) :
    Prop where
  wasReady : ∀ pair ∈ pairs, before.recordOf pair.2.id = some pair.2 ∧ pair.2.state = .ready
  served : ∀ pair ∈ pairs,
    after.recordOf pair.2.id = some (pair.2.reservedFor nowSecs pair.1.cliID)
  unserved : ∀ id, id ∉ pairs.map (fun pair => pair.2.id) → after.recordOf id = before.recordOf id
  queues : ∀ tubeName, (after.waitingAt tubeName).entries =
    (before.waitingAt tubeName).entries.filter (· ∉ pairs.map Prod.fst)
  reqID : ∀ cli, (after.clientAt cli).reqID = (before.clientAt cli).reqID
  tubes : ∀ tubeName, before.hasTube tubeName = true → after.hasTube tubeName = true

/-- The answers to the clients that have been served. -/
def matchedReservations (jsm : JSM) (pairs : List (CliPtr × Job)) : List Reservation :=
  pairs.map fun pair => matchedReservation (jsm.clientAt pair.1).reqID pair.1 pair.2

/-- A notion of service that the loop of `tickReadyJobs` provides, and what it rests on. -/
structure Serving (kinds : Kinds) (nowSecs : Int64) (ok : JSM → Prop)
    (serves : CliPtr → Job → JSM → JSM → Prop) : Prop where
  jobs : ∀ jsm, ok jsm → JobsOk kinds jsm
  hands : ∀ cli job before after, serves cli job before after →
    Handed kinds nowSecs cli job before after
  serve : ∀ jsm tubeName cli entry, ok jsm → cli ∈ (jsm.waitingAt tubeName).entries →
    (jsm.heapAt (.ready tubeName)).head? = some entry →
    (reserveFor nowSecs entry cli jsm).Ends
      (fun resv after => ok after ∧ serves cli (jsm.jobOf entry) jsm after ∧
        resv = matchedReservation (jsm.clientAt cli).reqID cli (jsm.jobOf entry))
      (fun _ _ => False) False

section Visit

variable {kinds : Kinds} {nowSecs : Int64} {jsm : JSM} {tubeName : TubeName}

theorem Handed.readyOrder_eq {after : JSM} {cli : CliPtr} {entry : Nat}
    (jobs : JobsOk kinds jsm) (readyExact : kinds .ready)
    (head : (jsm.heapAt (.ready tubeName)).head? = some entry)
    (handed : Handed kinds nowSecs cli (jsm.jobOf entry) jsm after) :
    jsm.readyOrder tubeName = jsm.jobOf entry :: after.readyOrder tubeName := by
  obtain ⟨recorded, home⟩ :=
    jobs.recordOf_jobOf (.ready tubeName) readyExact (List.mem_of_head? head)
  have members : ∀ record, record ∈ after.readyOrder tubeName ↔
      record.id ≠ (jsm.jobOf entry).id ∧ jsm.recordOf record.id = some record ∧
        record.home = some (.ready tubeName) := by
    intro record
    rw [handed.jobs.mem_readyOrder readyExact, handed.records]
    by_cases same : record.id = (jsm.jobOf entry).id
    · rw [if_pos same]
      constructor
      · rintro ⟨isRecord, isHome⟩
        rw [← Option.some.inj isRecord] at isHome
        simp [Job.home, Job.reservedFor] at isHome
      · exact fun holds => absurd same holds.1
    · simp [same]
  refine jobs.readyOrder_eq readyExact (List.pairwise_cons.mpr ⟨fun record member => ?_, ?_⟩)
    fun record => ?_
  · obtain ⟨different, isRecord, isHome⟩ := (members record).mp member
    refine lt_of_le_of_ne (jobs.head_le (.ready tubeName) readyExact head isRecord isHome) ?_
    exact fun same => different (HeapKey.id_of_sortKey _ same).symm
  · exact handed.jobs.readyOrder_sorted readyExact tubeName
  · rw [List.mem_cons, members]
    constructor
    · rintro (rfl | ⟨_, isRecord, isHome⟩)
      · exact ⟨recorded, home⟩
      · exact ⟨isRecord, isHome⟩
    · rintro ⟨isRecord, isHome⟩
      by_cases same : record.id = (jsm.jobOf entry).id
      · rw [same, recorded] at isRecord
        exact Or.inl (Option.some.inj isRecord).symm
      · exact Or.inr ⟨same, isRecord, isHome⟩

theorem Handed.queue_eq {after : JSM} {cli : CliPtr} {job : Job} {rest : List CliPtr}
    (handed : Handed kinds nowSecs cli job jsm after)
    (queue : (jsm.waitingAt tubeName).entries = cli :: rest) :
    (after.waitingAt tubeName).entries = rest := by
  have nodup := (jsm.waitingAt tubeName).nodup_entries
  rw [queue, List.nodup_cons] at nodup
  rw [handed.queues, queue, List.filter_cons_of_neg (by simp), List.filter_eq_self]
  intro other member
  have different : other ≠ cli := fun same => nodup.1 (same ▸ member)
  simpa using different

theorem tickReadyTube_of_ok {rounds : Nat} {result : List Reservation} {resv : Reservation}
    {after : JSM} (reserves : tryReserveJob nowSecs tubeName none jsm = .ok resv after) :
    tickReadyTube nowSecs tubeName (rounds + 1) result jsm =
      tickReadyTube nowSecs tubeName rounds (result ++ [resv]) after := by
  rw [tickReadyTube, Prog.bind_apply, Prog.attempt_of_ok reserves, Outcome.ok_andThen]

theorem tickReadyTube_of_noReservation {rounds : Nat} {result : List Reservation}
    (fails : tryReserveJob nowSecs tubeName none jsm = .err .noReservationFound jsm) :
    tickReadyTube nowSecs tubeName (rounds + 1) result jsm = .ok result jsm := by
  rw [tickReadyTube, Prog.bind_apply, Prog.attempt_of_err fails, Outcome.ok_andThen]
  rfl

theorem tickReadyTube_of_over
    (fails : tryReserveJob nowSecs tubeName none jsm = .err .noReservationFound jsm)
    {rounds : Nat} (enough : (jsm.heapAt (.ready tubeName)).length < rounds)
    (result : List Reservation) :
    tickReadyTube nowSecs tubeName rounds result jsm =
      .ok (result ++ matchedReservations jsm []) jsm := by
  obtain ⟨rounds, rfl⟩ := Nat.exists_eq_add_one_of_ne_zero (Nat.ne_zero_of_lt enough)
  rw [tickReadyTube_of_noReservation fails, matchedReservations, List.map_nil, List.append_nil]

/-- The loop serves the clients in line, while there are jobs for them. -/
theorem Serving.exists_inTurn {ok : JSM → Prop} {serves : CliPtr → Job → JSM → JSM → Prop}
    (serving : Serving kinds nowSecs ok serves) (readyExact : kinds .ready) (holds : ok jsm)
    (present : jsm.hasTube tubeName = true) :
    ∃ pairs after, pairs = (jsm.waitingAt tubeName).entries.zip (jsm.readyOrder tubeName) ∧
      InTurn serves pairs jsm after ∧ ok after ∧
      ∀ rounds, (jsm.heapAt (.ready tubeName)).length < rounds → ∀ result,
        tickReadyTube nowSecs tubeName rounds result jsm =
          .ok (result ++ matchedReservations jsm pairs) after := by
  induction count : (jsm.heapAt (.ready tubeName)).length generalizing jsm with
  | zero =>
      have jobs := serving.jobs jsm holds
      have noJob := List.length_eq_zero_iff.mp count
      refine ⟨[], jsm, ?_, .nil, holds, fun rounds enough result => ?_⟩
      · rw [jobs.readyOrder_eq_nil readyExact noJob, List.zip_nil_right]
      · refine tickReadyTube_of_over ?_ (count ▸ enough) result
        cases queue : (jsm.waitingAt tubeName).entries with
        | nil => exact tryReserveJob_of_nobody present queue
        | cons cli rest =>
            rw [tryReserveJob_of_queue present queue, noJob]
            rfl
  | succ count induction =>
  have jobs := serving.jobs jsm holds
  cases queue : (jsm.waitingAt tubeName).entries with
  | nil =>
      exact ⟨[], jsm, rfl, .nil, holds, fun rounds enough result =>
        tickReadyTube_of_over (tryReserveJob_of_nobody present queue) (by omega) result⟩
  | cons cli rest =>
  obtain ⟨entry, head⟩ : ∃ entry, (jsm.heapAt (.ready tubeName)).head? = some entry :=
    Option.isSome_iff_exists.mp (List.isSome_head?.mpr (List.ne_nil_of_length_eq_add_one ‹_›))
  have queued : cli ∈ (jsm.waitingAt tubeName).entries := by
    rw [queue]
    exact List.mem_cons_self
  obtain ⟨resv, middle, returns, okMiddle, first, rfl⟩ :=
    (serving.serve jsm tubeName cli entry holds queued head).returns
  have handed := serving.hands _ _ _ _ first
  have shorter := handed.shrinks tubeName
    (jobs.recordOf_jobOf (.ready tubeName) readyExact (List.mem_of_head? head)).2
  obtain ⟨pairs, after, isPairs, inTurn, okAfter, loops⟩ :=
    induction okMiddle (handed.tubes tubeName present) (by omega)
  refine ⟨(cli, jsm.jobOf entry) :: pairs, after, ?_, .cons first inTurn, okAfter,
    fun rounds enough result => ?_⟩
  · rw [isPairs, handed.queue_eq queue, handed.readyOrder_eq jobs readyExact head,
      List.zip_cons_cons]
  · obtain ⟨rounds, rfl⟩ := Nat.exists_eq_add_one_of_ne_zero (Nat.ne_zero_of_lt enough)
    have tries : tryReserveJob nowSecs tubeName none jsm = _ :=
      tryReserveJob_of_queue present queue
    rw [head] at tries
    rw [tickReadyTube_of_ok (tries.trans returns), loops rounds (by omega)]
    simp [matchedReservations, handed.reqID]

theorem HandedAll.of_inTurn {after : JSM} {pairs : List (CliPtr × Job)}
    {serves : CliPtr → Job → JSM → JSM → Prop}
    (hands : ∀ cli job before after, serves cli job before after →
      Handed kinds nowSecs cli job before after)
    (inTurn : InTurn serves pairs jsm after) : HandedAll nowSecs pairs jsm after := by
  induction inTurn with
  | nil =>
      exact ⟨by simp, by simp, fun _ _ => rfl, fun _ => by simp, fun _ => rfl, fun _ => id⟩
  | @cons cli job pairs before middle after serves _ induction =>
      have first := hands cli job before middle serves
      have records := first.records
      -- The first job is reserved by then, so it is none of the jobs handed out later.
      have fresh : ∀ pair ∈ pairs, pair.2.id ≠ job.id := by
        intro pair member same
        obtain ⟨recorded, isReady⟩ := induction.wasReady pair member
        rw [records, if_pos same] at recorded
        rw [← Option.some.inj recorded] at isReady
        simp [Job.reservedFor] at isReady
      refine ⟨?_, ?_, fun id outside => ?_, fun tubeName => ?_,
        fun other => (induction.reqID other).trans (first.reqID other), fun tubeName present =>
        induction.tubes tubeName (first.tubes tubeName present)⟩
      · rintro pair (_ | ⟨_, later⟩)
        · exact ⟨first.was, first.wasReady⟩
        · obtain ⟨recorded, isReady⟩ := induction.wasReady pair later
          rw [records, if_neg (fresh pair later)] at recorded
          exact ⟨recorded, isReady⟩
      · rintro pair (_ | ⟨_, later⟩)
        · rw [induction.unserved, records, if_pos rfl]
          intro again
          obtain ⟨pair, later, same⟩ := List.mem_map.mp again
          exact fresh pair later same
        · exact induction.served pair later
      · rw [List.map_cons, List.mem_cons, not_or] at outside
        rw [induction.unserved id outside.2, records, if_neg outside.1]
      · rw [induction.queues, first.queues, List.filter_filter]
        apply List.filter_congr
        intro other _
        by_cases same : other = cli <;> simp [same]

theorem InTurn.waitsKept {after : JSM} {pairs : List (CliPtr × Job)}
    {serves : CliPtr → Job → JSM → JSM → Prop}
    (hands : ∀ cli job before after, serves cli job before after →
      Handed kinds nowSecs cli job before after)
    (inTurn : InTurn serves pairs jsm after) :
    WaitsKept (· ∈ pairs.map Prod.fst) jsm after := by
  induction inTurn with
  | nil => exact .refl _ _
  | @cons cli job pairs before middle after serves _ induction =>
      refine WaitsKept.trans ((hands cli job before middle serves).waits.mono ?_)
        (induction.mono ?_)
      · rintro other rfl
        exact List.mem_cons_self
      · exact fun other later => List.mem_cons_of_mem _ later

theorem HandedAll.readyOrder_of_ne {after : JSM} {other : TubeName} {pairs : List (CliPtr × Job)}
    (handed : HandedAll nowSecs pairs jsm after) (jobs : JobsOk kinds jsm)
    (jobsAfter : JobsOk kinds after) (readyExact : kinds .ready)
    (inTube : ∀ pair ∈ pairs, pair.2.tubeName = tubeName) (different : other ≠ tubeName) :
    after.readyOrder other = jsm.readyOrder other := by
  refine jobs.readyOrder_congr jobsAfter readyExact fun id record home => ?_
  obtain ⟨isReady, isTube⟩ := (Job.home_eq_ready_iff _ _).mp home
  by_cases moved : id ∈ pairs.map fun pair => pair.2.id
  · obtain ⟨pair, inside, rfl⟩ := List.mem_map.mp moved
    rw [handed.served pair inside, (handed.wasReady pair inside).1]
    constructor
    · intro same
      rw [← Option.some.inj same] at isReady
      simp [Job.reservedFor] at isReady
    · intro same
      rw [← Option.some.inj same, inTube pair inside] at isTube
      exact absurd isTube.symm different
  · rw [handed.unserved id moved]

end Visit

/-! ## The walk -/

section Walk

variable {kinds : Kinds} {nowSecs : Int64} {jsm : JSM} {ok : JSM → Prop}
  {serves : CliPtr → Job → JSM → JSM → Prop}

theorem Serving.exists_visit (serving : Serving kinds nowSecs ok serves)
    (readyExact : kinds .ready) (holds : ok jsm) {tubeName : TubeName}
    (present : jsm.hasTube tubeName = true) :
    ∃ pairs after, pairs = (jsm.waitingAt tubeName).entries.zip (jsm.readyOrder tubeName) ∧
      InTurn serves pairs jsm after ∧ ok after ∧
      ∀ result, visitReadyTube nowSecs result tubeName jsm =
        .ok (result ++ matchedReservations jsm pairs) after := by
  obtain ⟨pairs, after, isPairs, inTurn, okAfter, loops⟩ :=
    serving.exists_inTurn readyExact holds present
  refine ⟨pairs, after, isPairs, inTurn, okAfter, fun result => ?_⟩
  unfold visitReadyTube
  rw [Prog.gets_bind]
  exact loops _ (Nat.lt_succ_self _) result

theorem Serving.exists_visits (serving : Serving kinds nowSecs ok serves)
    (readyExact : kinds .ready) (holds : ok jsm) {tubeNames : List TubeName}
    (nodup : tubeNames.Nodup) (present : ∀ tubeName ∈ tubeNames, jsm.hasTube tubeName = true) :
    ∃ pairs after,
      pairs = WaitingLine.serve jsm.readyOrder tubeNames
        (fun tubeName => (jsm.waitingAt tubeName).entries) ∧
      InTurn serves pairs jsm after ∧ ok after ∧
      ∀ result, tubeNames.foldlM (visitReadyTube nowSecs) result jsm =
        .ok (result ++ matchedReservations jsm pairs) after := by
  induction tubeNames generalizing jsm with
  | nil =>
      refine ⟨[], jsm, rfl, .nil, holds, fun result => ?_⟩
      rw [matchedReservations, List.map_nil, List.append_nil]
      rfl
  | cons tubeName tubeNames induction =>
      obtain ⟨fresh, nodup⟩ := List.nodup_cons.mp nodup
      have jobs := serving.jobs jsm holds
      obtain ⟨pairs, middle, isPairs, inTurn, okMiddle, visits⟩ :=
        serving.exists_visit readyExact holds (present tubeName List.mem_cons_self)
      have handed := HandedAll.of_inTurn serving.hands inTurn
      obtain ⟨later, after, isLater, inTurnLater, okAfter, walks⟩ :=
        induction okMiddle nodup fun other member =>
          handed.tubes other (present other (List.mem_cons_of_mem _ member))
      refine ⟨pairs ++ later, after, ?_, inTurn.append inTurnLater, okAfter, fun result => ?_⟩
      · have inTube : ∀ pair ∈ pairs, pair.2.tubeName = tubeName := by
          intro pair member
          rw [isPairs] at member
          have inOrder := (List.of_mem_zip member).2
          exact ((Job.home_eq_ready_iff _ _).mp
            ((jobs.mem_readyOrder readyExact pair.2).mp inOrder).2).2
        have sameQueues : (fun other => (middle.waitingAt other).entries) = fun other =>
            (jsm.waitingAt other).entries.filter fun cli => cli ∉ pairs.map Prod.fst :=
          funext handed.queues
        have sameOrder : ∀ other ∈ tubeNames, middle.readyOrder other = jsm.readyOrder other := by
          intro other member
          refine handed.readyOrder_of_ne jobs (serving.jobs middle okMiddle) readyExact inTube ?_
          rintro rfl
          exact fresh member
        rw [WaitingLine.serve, isLater, ← isPairs, sameQueues, WaitingLine.serve_congr sameOrder]
      · rw [List.foldlM_cons, Prog.bind_apply, visits, Outcome.ok_andThen, walks]
        simp [matchedReservations, handed.reqID]

theorem Serving.exists_tickReadyJobs (serving : Serving kinds nowSecs ok serves)
    (readyExact : kinds .ready) (holds : ok jsm) (walk : TubeWalk) :
    ∃ pairs after,
      pairs = WaitingLine.serve jsm.readyOrder (walk.ready jsm.tubes.keys)
        (fun tubeName => (jsm.waitingAt tubeName).entries) ∧
      InTurn serves pairs jsm after ∧ ok after ∧
      tickReadyJobs nowSecs walk jsm = .ok (matchedReservations jsm pairs) after := by
  have perm := walk.perm_ready jsm.tubes.keys
  obtain ⟨pairs, after, isPairs, inTurn, okAfter, walks⟩ :=
    serving.exists_visits readyExact holds (perm.nodup_iff.mpr jsm.tubes.keys_nodup)
      fun tubeName member => (jsm.mem_keys_iff_hasTube tubeName).mp (perm.mem_iff.mp member)
  refine ⟨pairs, after, isPairs, inTurn, okAfter, ?_⟩
  unfold tickReadyJobs
  rw [Prog.gets_bind, walks, List.nil_append]

end Walk

end Coolbeans
