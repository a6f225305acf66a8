import Coolbeans.ClientLines
import Coolbeans.TubeVisit

/-!
# The order of matches

A tick visits the tubes one after the other.  In every run, and whatever the matches before
have changed, a visit hands the ready jobs of the tube, by priority and id, to its clients in
the order in which they came; a client that gets a job leaves all its queues.  When the walk is
over, no tube has both a ready job and a client that waits for one.
-/

namespace Coolbeans

open FiniteMap PositionHeap StatefulProgram

/-! ## First come -/

/-- Note the time for those who have come to a wait queue. -/
def noteArrivals (clock : Nat) (before after : JSM) (came : TubeName → CliPtr → Nat)
    (tubeName : TubeName) (cli : CliPtr) : Nat :=
  if cli ∈ (after.waitingAt tubeName).entries ∧ cli ∉ (before.waitingAt tubeName).entries then
    clock
  else came tubeName cli

/-- A run with its clock, and when each client has come to the wait queue of a tube. -/
inductive Arrivals (admits : JSM → Op → Prop) :
    Nat → (TubeName → CliPtr → Nat) → JSM → Prop where
  | start (came : TubeName → CliPtr → Nat) : Arrivals admits 0 came newJSM
  | step {clock : Nat} {came : TubeName → CliPtr → Nat} {before after : JSM} {op : Op}
      {answer : Answer} (earlier : Arrivals admits clock came before)
      (admitted : admits before op) (steps : op.Steps before answer after) :
      Arrivals admits (clock + 1) (noteArrivals clock before after came) after

section FirstCome

variable {admits : JSM → Op → Prop} {clock : Nat} {came : TubeName → CliPtr → Nat} {jsm : JSM}

theorem Reachable.exists_arrivals (reachable : Reachable admits jsm) :
    ∃ clock came, Arrivals admits clock came jsm := by
  obtain ⟨events, run⟩ := reachable
  induction run with
  | nil => exact ⟨0, fun _ _ => 0, .start _⟩
  | snoc _ admitted steps induction =>
      obtain ⟨clock, came, arrivals⟩ := induction
      exact ⟨_, _, .step arrivals admitted steps⟩

theorem Arrivals.reachable (arrivals : Arrivals admits clock came jsm) :
    Reachable admits jsm := by
  induction arrivals with
  | start => exact ⟨[], .nil _⟩
  | step _ admitted steps induction =>
      obtain ⟨events, run⟩ := induction
      exact ⟨_, .snoc run admitted steps⟩

/-- Who is in a wait queue came at a time before now, and later than those before it. -/
theorem Arrivals.firstCome (arrivals : Arrivals admits clock came jsm) (tubeName : TubeName) :
    (∀ cli ∈ (jsm.waitingAt tubeName).entries, came tubeName cli < clock) ∧
      (jsm.waitingAt tubeName).entries.Pairwise fun first second =>
        came tubeName first < came tubeName second := by
  induction arrivals with
  | start => exact ⟨by simp [newJSM, JSM.waitingAt], by simp [newJSM, JSM.waitingAt]⟩
  | @step clock came before after op answer earlier _ steps induction =>
      obtain ⟨past, inOrder⟩ := induction
      have ok := anyRunOk_of_reachable earlier.reachable
      obtain ⟨newcomer, fresh, sublist⟩ := (steps.keeps (ends_run_keptLines ok op)).joined tubeName
      -- Who was there keeps its time, and who is new comes now.
      let time : CliPtr → Nat := fun cli =>
        if cli ∈ (before.waitingAt tubeName).entries then came tubeName cli else clock
      have isTime : ∀ cli ∈ (after.waitingAt tubeName).entries,
          noteArrivals clock before after came tubeName cli = time cli := by
        intro cli member
        by_cases old : cli ∈ (before.waitingAt tubeName).entries <;>
          simp [noteArrivals, time, old, member]
      have bounded : ∀ cli, time cli < clock + 1 := by
        intro cli
        by_cases old : cli ∈ (before.waitingAt tubeName).entries
        · simp only [time, if_pos old]
          exact Nat.lt_succ_of_lt (past cli old)
        · simp only [time, if_neg old]
          exact Nat.lt_succ_self clock
      have whole : ((before.waitingAt tubeName).entries ++ newcomer.toList).Pairwise
          fun first second => time first < time second := by
        rw [List.pairwise_append]
        refine ⟨inOrder.imp_of_mem fun {first second} isFirst isSecond less => ?_, ?_,
          fun old isOld new isNew => ?_⟩
        · simpa only [time, if_pos isFirst, if_pos isSecond] using less
        · cases newcomer <;> simp
        · simp only [time, if_pos isOld, if_neg (fresh new (Option.mem_toList.mp isNew))]
          exact past old isOld
      constructor
      · intro cli member
        rw [isTime cli member]
        exact bounded cli
      · refine (whole.sublist sublist).imp_of_mem fun {first second} isFirst isSecond less => ?_
        rw [isTime first isFirst, isTime second isSecond]
        exact less

end FirstCome

/-! ## Handing out jobs in every run -/

/-- What serving the clients in the wait queues rests on: they wait, in the queues of just their
tubes, and the client heap knows its entries. -/
structure InLine (jsm : JSM) : Prop where
  jobs : JobsOk .anyRun jsm
  tracked : Tracked clientStore jsm.clientHeapState
  placed : ∀ tubeName, ∀ cli ∈ (jsm.waitingAt tubeName).entries, jsm.Placed cli
  waits : ∀ tubeName, ∀ cli ∈ (jsm.waitingAt tubeName).entries,
    (jsm.clientAt cli).isWaitingForResv = true
  watches : ∀ tubeName, ∀ cli ∈ (jsm.waitingAt tubeName).entries,
    (jsm.clientAt cli).watchedTubes.Nodup ∧
      ∀ other, cli ∈ (jsm.waitingAt other).entries ↔ other ∈ (jsm.clientAt cli).watchedTubes

theorem AnyRunOk.inLine {jsm : JSM} (ok : AnyRunOk jsm) : InLine jsm := by
  refine ⟨ok.jobs, ok.lines.tracked, fun tubeName cli queued => ?_,
    fun tubeName cli queued => (ok.lines.waits queued).1, fun tubeName cli queued => ?_⟩
  · exact ok.lines.placed cli (Or.inr (ok.lines.waits queued).1)
  · have waiting := (ok.lines.waits queued).1
    refine ⟨ok.lines.nodup cli waiting, fun other => ?_⟩
    rw [ok.lines.queued, JSM.wanted, if_pos waiting]

section HandOut

variable {nowSecs : Int64} {jsm : JSM} {cli : CliPtr} {tubeName : TubeName}

theorem InLine.handed {after : JSM} (inLine : InLine jsm) {job : Job}
    (handed : Handed .anyRun nowSecs cli job jsm after)
    (tracked : Tracked clientStore after.clientHeapState)
    (placed : ∀ other, jsm.Placed other → after.Placed other)
    (request : ∀ other, other ≠ cli →
      (after.clientAt other).request = (jsm.clientAt other).request) : InLine after := by
  have stays : ∀ {tubeName other}, other ∈ (after.waitingAt tubeName).entries ↔
      other ∈ (jsm.waitingAt tubeName).entries ∧ other ≠ cli := by
    intro tubeName other
    rw [handed.queues, List.mem_filter, decide_eq_true_eq]
  refine ⟨handed.jobs, tracked, fun tubeName other queued => ?_, fun tubeName other queued => ?_,
    fun tubeName other queued => ?_⟩
  all_goals
    obtain ⟨wasQueued, different⟩ := stays.mp queued
    obtain ⟨watched, _, waits, _⟩ := ClientResvEntry.fields_of_request (request other different)
  · exact placed other (inLine.placed tubeName other wasQueued)
  · rw [waits]
    exact inLine.waits tubeName other wasQueued
  · obtain ⟨nodup, everywhere⟩ := inLine.watches tubeName other wasQueued
    rw [watched]
    refine ⟨nodup, fun tubeName => ?_⟩
    rw [stays, everywhere]
    exact and_iff_left different

/-- A client in a wait queue gets a job off the ready heap. -/
theorem InLine.ends_reserveFor (inLine : InLine jsm)
    (queued : cli ∈ (jsm.waitingAt tubeName).entries) {entry : Nat}
    (member : entry ∈ jsm.heapAt (.ready tubeName)) :
    (reserveFor nowSecs entry cli jsm).Ends
      (fun resv after => InLine after ∧
        Handed .anyRun nowSecs cli (jsm.jobOf entry) jsm after ∧
        resv = matchedReservation (jsm.clientAt cli).reqID cli (jsm.jobOf entry))
      (fun _ _ => False) False := by
  have readyExact : Kinds.anyRun .ready := Or.inl rfl
  obtain ⟨_, home⟩ := inLine.jobs.recordOf_jobOf (.ready tubeName) readyExact member
  have waiting := inLine.waits tubeName cli queued
  obtain ⟨nodup, everywhere⟩ := inLine.watches tubeName cli queued
  obtain ⟨_, reserved, reserves, moved, tubes⟩ :=
    (ends_reserve_ready inLine.jobs readyExact member nowSecs cli.cliID).returns
  obtain ⟨_, sameHeap, sameAt, _, sameQueues⟩ := moved.frame.fields
  have stillPlaced : ∀ other, jsm.Placed other → reserved.Placed other := by
    intro other placed
    rw [JSM.Placed, sameHeap, sameAt]
    exact placed
  have trackedReserved : Tracked clientStore reserved.clientHeapState := by
    rw [JSM.clientHeapState, sameHeap, sameAt]
    exact inLine.tracked
  have inQueues : ∀ other, cli ∈ (reserved.waitingAt other).entries ↔
      other ∈ (reserved.clientAt cli).watchedTubes := by
    intro other
    rw [sameQueues, sameAt]
    exact everywhere other
  obtain ⟨_, left, leaves, unreserved, _⟩ :=
    (ends_leaveQueues inQueues (sameAt ▸ nodup)).returns
  have placed : left.Placed cli :=
    unreserved.placed (stillPlaced cli (inLine.placed tubeName cli queued))
  obtain ⟨_, after, ticks, repositioned⟩ :=
    ((repositions_updateClientTickAt (unreserved.tracked trackedReserved)).mono
      (fun _ _ => id) (fun _ _ => id) (absurd placed)).returns
  have clientFrame : ClientFrame reserved after := unreserved.frame.trans repositioned.frame
  have returned : reserveFor nowSecs entry cli jsm =
      .ok (matchedReservation (jsm.clientAt cli).reqID cli (jsm.jobOf entry)) after := by
    unfold reserveFor
    rw [readClient_bind, Prog.bind_apply, Prog.insist_apply, if_pos waiting, Outcome.ok_andThen,
      Prog.gets_bind, Prog.bind_apply, Prog.attempt_of_ok reserves, Outcome.ok_andThen]
    dsimp only
    rw [Prog.bind_apply, leaves, Outcome.ok_andThen, Prog.bind_apply, ticks, Outcome.ok_andThen]
    rfl
  have handed : Handed .anyRun nowSecs cli (jsm.jobOf entry) jsm after :=
    { jobs := moved.inv.of_clientFrame clientFrame
      was := moved.was
      wasReady := ((Job.home_eq_ready_iff _ _).mp home).1
      records := by
        rw [clientFrame.recordOf]
        exact moved.records
      reqID := by
        intro other
        rw [(ClientResvEntry.fields_of_request (repositioned.request other)).2.2.2,
          unreserved.clientAt, sameAt]
        split
        next same => rw [same]
        next => rfl
      waits := ((WaitsKept.of_clientView moved.frame.clients).trans unreserved.waitsKept).trans
        repositioned.waitsKept
      queues := by
        intro other
        rw [repositioned.queues, unreserved.queues, sameQueues]
      shrinks := by
        intro other isHome
        rw [clientFrame.heapAt]
        exact moved.shrinks _ readyExact isHome (by simp [Job.reservedFor, Job.home])
      tubes := fun other present => clientFrame.tubes other (tubes other present) }
  rw [returned]
  refine ⟨inLine.handed handed repositioned.tracked (fun other isPlaced => ?_)
    (fun other different => ?_), handed, rfl⟩
  · exact repositioned.placed other (unreserved.placed (stillPlaced other isPlaced))
  · rw [repositioned.request, unreserved.clientAt, if_neg different, sameAt]

theorem serving_inLine : Serving .anyRun nowSecs InLine (Handed .anyRun nowSecs) where
  jobs _ inLine := inLine.jobs
  hands _ _ _ _ handed := handed
  serve _ _ _ _ inLine queued head := inLine.ends_reserveFor queued (List.mem_of_head? head)

end HandOut

/-! ## The visits of a walk -/

/-- A ready job of a tube. -/
def JSM.ReadyIn (jsm : JSM) (tubeName : TubeName) (job : Job) : Prop :=
  jsm.recordOf job.id = some job ∧ job.state = .ready ∧ job.tubeName = tubeName

/-- `tickReadyJobs` visits a tube: its ready jobs, by priority and id, go to the clients in its
wait queue, who stand there in the order in which they came. -/
structure Visit (nowSecs : Int64) (came : TubeName → CliPtr → Nat) (tubeName : TubeName)
    (pairs : List (CliPtr × Job)) (before after : JSM) : Prop where
  ready : ∀ job, job ∈ before.readyOrder tubeName ↔ before.ReadyIn tubeName job
  byPriority : (before.readyOrder tubeName).Pairwise fun first second =>
    first.priority < second.priority ∨
      first.priority = second.priority ∧ first.id < second.id
  firstCome : (before.waitingAt tubeName).entries.Pairwise fun first second =>
    came tubeName first < came tubeName second
  pairing : pairs = (before.waitingAt tubeName).entries.zip (before.readyOrder tubeName)
  returns : ∀ result, visitReadyTube nowSecs result tubeName before =
    .ok (result ++ matchedReservations before pairs) after
  handed : HandedAll nowSecs pairs before after

/-- The visits of a walk, with the answers to the clients. -/
inductive Visits (nowSecs : Int64) (came : TubeName → CliPtr → Nat) :
    List TubeName → JSM → List Reservation → JSM → Prop where
  | nil {jsm : JSM} : Visits nowSecs came [] jsm [] jsm
  | cons {tubeName : TubeName} {tubeNames : List TubeName} {pairs : List (CliPtr × Job)}
      {resvs : List Reservation} {before middle after : JSM}
      (visit : Visit nowSecs came tubeName pairs before middle)
      (rest : Visits nowSecs came tubeNames middle resvs after) :
      Visits nowSecs came (tubeName :: tubeNames) before
        (matchedReservations before pairs ++ resvs) after

/-- A tube has no client that waits, or no ready job. -/
def JSM.Settled (jsm : JSM) (tubeName : TubeName) : Prop :=
  (jsm.waitingAt tubeName).entries = [] ∨ ∀ job, ¬ jsm.ReadyIn tubeName job

section Visits

variable {nowSecs : Int64} {came : TubeName → CliPtr → Nat} {jsm after : JSM}
  {tubeName : TubeName} {pairs : List (CliPtr × Job)}

theorem HandedAll.readyIn_before (handed : HandedAll nowSecs pairs jsm after) {job : Job}
    (readyIn : after.ReadyIn tubeName job) :
    jsm.ReadyIn tubeName job ∧ job.id ∉ pairs.map fun pair => pair.2.id := by
  obtain ⟨recorded, isReady, inTube⟩ := readyIn
  have outside : job.id ∉ pairs.map fun pair => pair.2.id := by
    intro inside
    obtain ⟨pair, member, same⟩ := List.mem_map.mp inside
    have reserved := handed.served pair member
    rw [same, recorded] at reserved
    rw [Option.some.inj reserved] at isReady
    simp [Job.reservedFor] at isReady
  rw [handed.unserved job.id outside] at recorded
  exact ⟨⟨recorded, isReady, inTube⟩, outside⟩

theorem HandedAll.settled (handed : HandedAll nowSecs pairs jsm after)
    (settled : jsm.Settled tubeName) : after.Settled tubeName := by
  rcases settled with nobody | noJob
  · left
    rw [handed.queues, nobody, List.filter_nil]
  · right
    intro job readyIn
    exact noJob job (handed.readyIn_before readyIn).1

theorem Visit.settled (visit : Visit nowSecs came tubeName pairs jsm after) :
    after.Settled tubeName := by
  rcases Nat.le_total (jsm.waitingAt tubeName).entries.length (jsm.readyOrder tubeName).length
    with fewClients | fewJobs
  · left
    have everyone : pairs.map Prod.fst = (jsm.waitingAt tubeName).entries := by
      rw [visit.pairing, List.map_fst_zip fewClients]
    rw [visit.handed.queues, everyone, List.filter_eq_nil_iff]
    intro cli member
    simpa using member
  · right
    have every : pairs.map Prod.snd = jsm.readyOrder tubeName := by
      rw [visit.pairing, List.map_snd_zip fewJobs]
    intro job readyIn
    obtain ⟨wasReady, outside⟩ := visit.handed.readyIn_before readyIn
    rw [← visit.ready, ← every] at wasReady
    obtain ⟨pair, member, rfl⟩ := List.mem_map.mp wasReady
    exact outside (List.mem_map.mpr ⟨pair, member, rfl⟩)

theorem Visits.settled {tubeNames : List TubeName} {resvs : List Reservation}
    (visits : Visits nowSecs came tubeNames jsm resvs after)
    (isSettled : tubeName ∈ tubeNames ∨ jsm.Settled tubeName) : after.Settled tubeName := by
  induction visits with
  | nil => exact isSettled.resolve_left List.not_mem_nil
  | @cons visited tubeNames pairs resvs before middle after visit rest induction =>
      apply induction
      rcases isSettled with inside | settled
      · rcases List.mem_cons.mp inside with rfl | later
        · exact Or.inr visit.settled
        · exact Or.inl later
      · exact Or.inr (visit.handed.settled settled)

theorem Visits.foldlM_eq {tubeNames : List TubeName} {resvs : List Reservation}
    (visits : Visits nowSecs came tubeNames jsm resvs after) (result : List Reservation) :
    tubeNames.foldlM (visitReadyTube nowSecs) result jsm = .ok (result ++ resvs) after := by
  induction visits generalizing result with
  | nil =>
      rw [List.append_nil]
      rfl
  | @cons visited tubeNames pairs resvs before middle after visit rest induction =>
      rw [List.foldlM_cons, Prog.bind_apply, visit.returns, Outcome.ok_andThen, induction,
        List.append_assoc]

variable (nowSecs) in
theorem InLine.exists_visit (inLine : InLine jsm) (present : jsm.hasTube tubeName = true)
    (firstCome : (jsm.waitingAt tubeName).entries.Pairwise fun first second =>
      came tubeName first < came tubeName second) :
    ∃ pairs after, Visit nowSecs came tubeName pairs jsm after ∧ InLine after := by
  have readyExact : Kinds.anyRun .ready := Or.inl rfl
  obtain ⟨pairs, after, isPairs, inTurn, inLineAfter, returns⟩ :=
    serving_inLine.exists_visit readyExact inLine present
  refine ⟨pairs, after, ⟨fun job => ?_, ?_, firstCome, isPairs, returns,
    .of_inTurn serving_inLine.hands inTurn⟩, inLineAfter⟩
  · rw [inLine.jobs.mem_readyOrder readyExact, Job.home_eq_ready_iff]
    rfl
  · refine (inLine.jobs.readyOrder_sorted readyExact tubeName).imp fun less => ?_
    simpa only [HeapKey.sortKey, Prod.Lex.toLex_lt_toLex, Int.ofNat_lt, Int.ofNat_inj,
      UInt32.toNat_inj, ← UInt32.lt_iff_toNat_lt, ← UInt64.lt_iff_toNat_lt] using less

theorem InLine.exists_visits (inLine : InLine jsm) (tubeNames : List TubeName)
    (present : ∀ tubeName ∈ tubeNames, jsm.hasTube tubeName = true)
    (firstCome : ∀ tubeName, (jsm.waitingAt tubeName).entries.Pairwise fun first second =>
      came tubeName first < came tubeName second) :
    ∃ resvs after, Visits nowSecs came tubeNames jsm resvs after := by
  induction tubeNames generalizing jsm with
  | nil => exact ⟨[], jsm, .nil⟩
  | cons tubeName tubeNames induction =>
      obtain ⟨pairs, middle, visit, inLineMiddle⟩ :=
        inLine.exists_visit nowSecs (present tubeName List.mem_cons_self) (firstCome tubeName)
      have stillFirstCome : ∀ other, (middle.waitingAt other).entries.Pairwise
          fun first second => came other first < came other second := by
        intro other
        rw [visit.handed.queues]
        exact (firstCome other).sublist List.filter_sublist
      obtain ⟨resvs, after, rest⟩ := induction inLineMiddle (fun other member =>
        visit.handed.tubes other (present other (List.mem_cons_of_mem _ member))) stillFirstCome
      exact ⟨_, after, .cons visit rest⟩

end Visits

section Tick

variable {admits : JSM → Op → Prop} {clock : Nat} {came : TubeName → CliPtr → Nat}
  {before jsm : JSM} {nowSecs : Int64} {walk : TubeWalk}

/-- In every run, `tickReadyJobs` matches the ready jobs of each tube that it visits, by priority
and id, with the clients that wait for them, first come first served, until one side runs out.
It may run on the state that the run has led to or, as in a tick, after the delayed jobs. -/
theorem tickReadyJobs_inOrder (arrivals : Arrivals admits clock came before)
    (isStage : jsm = before ∨ tickDelayStage nowSecs walk before = .ok () jsm) :
    ∃ resvs after, tickReadyJobs nowSecs walk jsm = .ok resvs after ∧
      Visits nowSecs came (walk.ready jsm.tubes.keys) jsm resvs after ∧
      ∀ tubeName, (after.waitingAt tubeName).entries = [] ∨
        ∀ job, ¬ after.ReadyIn tubeName job := by
  have nobodyCame : NobodyCame before jsm := by
    have atStart := NobodyCame.refl (anyRunOk_of_reachable arrivals.reachable)
    rcases isStage with rfl | delays
    · exact atStart
    · have rules : TickRules nowSecs _ _ := tickRules_nobodyCame before
      have kept := rules.keeps_tickDelayStage walk before atStart
      rw [delays] at kept
      exact kept
  have tubes : ∀ tubeName, tubeName ∈ walk.ready jsm.tubes.keys ↔ jsm.hasTube tubeName = true :=
    fun tubeName => (walk.perm_ready _).mem_iff.trans (jsm.mem_keys_iff_hasTube tubeName)
  obtain ⟨resvs, after, visits⟩ := nobodyCame.inLine.exists_visits
    (walk.ready jsm.tubes.keys) (fun tubeName => (tubes tubeName).mp) fun tubeName =>
      (arrivals.firstCome tubeName).2.sublist (nobodyCame.leaves tubeName)
  refine ⟨resvs, after, ?_, visits, fun tubeName => visits.settled ?_⟩
  · unfold tickReadyJobs
    rw [Prog.gets_bind, visits.foldlM_eq, List.nil_append]
  · by_cases present : jsm.hasTube tubeName = true
    · exact Or.inl ((tubes tubeName).mpr present)
    · right
      left
      by_contra occupied
      obtain ⟨cli, queued⟩ := List.exists_mem_of_ne_nil _ occupied
      exact present (jsm.hasTube_of_waiting tubeName queued)

/-- Three clients wait, the first of them in two tubes, and three jobs are ready. -/
def clientsForTwoTubes : List Op :=
  [.appendReservation [1] [1] [[2], [3]] 10 100, .appendReservation [4] [2] [[2]] 10 100,
    .appendReservation [5] [3] [[3]] 10 100, .put 10 5 0 60 0 none [2], .put 10 1 0 60 0 none [2],
    .put 10 9 0 60 0 none [3]]

/-- The first client gets the job of the tube that is visited first; the second is now the first
in the other tube and gets the more urgent job there. -/
theorem tickReadyJobs_inOrder_twoTubes :
    ∃ clock came resvs after,
      Arrivals (fun _ _ => True) clock came (stateAfter clientsForTwoTubes) ∧
      tickReadyJobs 20 .inOrder (stateAfter clientsForTwoTubes) = .ok resvs after ∧
      resvs.map (fun resv => (resv.clientId, resv.jobId)) = [([1], 3), ([4], 2)] ∧
      Visits 20 came (TubeWalk.inOrder.ready (stateAfter clientsForTwoTubes).tubes.keys)
        (stateAfter clientsForTwoTubes) resvs after := by
  obtain ⟨clock, came, arrivals⟩ := (reachable_stateAfter clientsForTwoTubes
    fun _ _ _ => trivial).exists_arrivals
  obtain ⟨resvs, after, returns, visits, _⟩ :=
    @tickReadyJobs_inOrder _ _ _ _ _ 20 .inOrder arrivals (Or.inl rfl)
  have evaluated : (tickReadyJobs 20 .inOrder (stateAfter clientsForTwoTubes)).reply?.map
      (Except.map fun resvs => resvs.map fun resv => (resv.clientId, resv.jobId)) =
      some (.ok [([1], 3), ([4], 2)]) := by
    decide +kernel
  rw [returns] at evaluated
  simp only [Outcome.reply?, Option.map_some, Except.map, Option.some.injEq,
    Except.ok.injEq] at evaluated
  exact ⟨clock, came, resvs, after, arrivals, returns, evaluated, visits⟩

end Tick

end Coolbeans
