import Coolbeans.BoardCommands
import Coolbeans.ClientRounds

/-!
# Requests follow the rules of the board

`AppendReservation` looks at the tubes of the client in the order in which they are listed, and
takes the first job of the first one that has any.  So it answers as the rule of the board says.
-/

namespace Coolbeans

open FiniteMap PositionHeap SortedListing StatefulProgram

/-! ## The first tube that has a job -/

section FirstTube

variable {jsm : JSM} {nowSecs : Int64} {cli : CliPtr}

theorem neverFails_unReserve (cli : CliPtr) : Prog.NeverFails (unReserve cli) := by
  refine (Prog.neverFails_modify _).bind fun _ => (Prog.neverFails_gets _).bind fun record =>
    Prog.neverFails_foldlM _ _ fun _ tubeName => ?_
  intro jsm
  unfold leaveWaitQ
  split
  · trivial
  split <;> trivial

theorem ends_reserveFor_jobId (entry : Nat) :
    (reserveFor nowSecs entry cli jsm).Ends (fun resv _ => resv.jobId = (jsm.jobOf entry).id)
      (fun _ _ => False) True := by
  unfold reserveFor
  rw [readClient_bind, Prog.bind_apply, Prog.insist_apply]
  split
  swap
  next => trivial
  next =>
    rw [Outcome.ok_andThen, Prog.gets_bind]
    apply Prog.ends_bind ((Prog.neverFails_attempt _ _).mono (fun _ _ holds => holds)
      (fun _ _ => False.elim) fun holds => holds)
    rintro (error | _) after _
    · trivial
    · apply Prog.ends_bind ((neverFails_unReserve cli _).mono (fun _ _ holds => holds)
        (fun _ _ => False.elim) fun holds => holds)
      intro _ middle _
      apply Prog.ends_bind ((neverFails_updateClientTickAt cli _).mono (fun _ _ holds => holds)
        (fun _ _ => False.elim) fun holds => holds)
      intro _ last _
      rfl

/-- A request that is answered at once gets the first job of the first tube that has any. -/
theorem ends_appendReservation_jobId (clientsOk : ClientsOk jsm) (clientId : ClientID)
    (reqID : ReqID) (watchedTubes : List TubeName) (resvDeadlineAt : Int64) :
    (appendReservation clientId reqID watchedTubes nowSecs resvDeadlineAt jsm).Ends
      (fun resv _ => resv.status = .matched →
        ∃ entry, jsm.FirstReady watchedTubes entry ∧ (jsm.jobOf entry).id = resv.jobId)
      (fun _ _ => True) True := by
  unfold appendReservation
  rw [Prog.bind_apply, Prog.require_apply]
  split
  swap
  next => trivial
  next =>
  rw [Outcome.ok_andThen]
  apply Prog.ends_bind ((ends_registerClient clientsOk.inv
    (fun cli _ idle => by simp [JSM.wanted, idle]) clientId reqID watchedTubes
    resvDeadlineAt).mono (fun _ _ holds => holds) (fun _ _ _ => trivial) False.elim)
  rintro cli registered ⟨_, asked, _⟩
  apply Prog.ends_bind ((ends_joinWaitQs_any registered cli watchedTubes).mono
    (fun _ _ holds => holds) (fun _ _ => False.elim) fun _ => trivial)
  rintro _ middle ⟨_, requeued⟩
  have queued : ∀ tubeName ∈ watchedTubes, cli ∈ (middle.waitingAt tubeName).entries := by
    intro tubeName member
    simp [requeued.queues, JSM.queuesWith, member]
  have frame := asked.frame.trans requeued.frame
  apply Prog.ends_bind ((ends_firstMatch watchedTubes queued
    fun _ _ entry _ => ends_reserveFor_jobId entry).mono (fun _ _ holds => holds)
    (fun _ _ => False.elim) fun holds => holds)
  rintro _ after (⟨rfl, rfl, _⟩ | ⟨entry, resv, first, isId, rfl⟩)
  · apply Prog.ends_bind ((neverFails_updateClientTickAt cli _).mono (fun _ _ holds => holds)
      (fun _ _ => False.elim) fun holds => holds)
    intro _ last _ impossible
    cases impossible
  · intro _
    unfold JSM.FirstReady at first
    rw [frame.heapAt] at first
    exact ⟨entry, first, by rw [isId, frame.jobOf]⟩

end FirstTube

/-! ## AppendReservation -/

section Append

variable {kinds : Kinds} {jsm : JSM} {nowSecs resvDeadlineAt : Int64} {clientId : ClientID}
  {reqID : ReqID} {watchedTubes : List TubeName}

theorem JobsOk.findSome?_of_firstReady (inv : JobsOk kinds jsm) (readyExact : kinds .ready)
    {job : Job} (recorded : jsm.recordOf job.id = some job) {entry : Nat}
    (first : jsm.FirstReady watchedTubes entry) (isId : (jsm.jobOf entry).id = job.id) :
    (watchedTubes.findSome? fun tubeName => jsm.board.first? (.ready tubeName)) =
      some job.plain := by
  obtain ⟨earlier, tubeName, later, isSplit, empty, head⟩ := first
  rw [List.findSome?_eq_some_iff]
  refine ⟨earlier, tubeName, later, isSplit, ?_, fun other member => ?_⟩
  · have found := (inv.recordOf_jobOf (.ready tubeName) readyExact (List.mem_of_head? head)).1
    rw [isId, recorded] at found
    rw [inv.board_first? (.ready tubeName) readyExact, head, Option.map_some,
      ← Option.some.inj found]
  · rw [inv.board_first? (.ready other) readyExact, empty other member]
    rfl

theorem JobsOk.findSome?_of_empty (inv : JobsOk kinds jsm) (readyExact : kinds .ready)
    (empty : ∀ tubeName ∈ watchedTubes, jsm.heapAt (.ready tubeName) = []) :
    (watchedTubes.findSome? fun tubeName => jsm.board.first? (.ready tubeName)) = none := by
  rw [List.findSome?_eq_none_iff]
  intro tubeName member
  rw [inv.board_first? (.ready tubeName) readyExact, empty tubeName member]
  rfl

variable {cli : CliPtr} {middle after : JSM} {resv : Reservation}

theorem Asked.requestOf_none {queues : TubeName → List CliPtr}
    (asked : Asked cli reqID watchedTubes resvDeadlineAt queues jsm middle) :
    jsm.requestOf cli.cliID = none := by
  rw [Option.eq_none_iff_forall_ne_some]
  intro request asks
  obtain ⟨other, registered, named, isRequest⟩ := (JSM.requestOf_eq_some_iff request).mp asks
  have idle := asked.idle other registered named
  rw [(ClientResvEntry.openRequest_eq_none_iff _).mpr idle] at isRequest
  cases isRequest

theorem Asked.notMem_waiting {queues : TubeName → List CliPtr} (clientsOk : ClientsOk jsm)
    (asked : Asked cli reqID watchedTubes resvDeadlineAt queues jsm middle) (tubeName : TubeName) :
    cli ∉ (jsm.waitingAt tubeName).entries := by
  intro queued
  obtain ⟨registered, waiting, _⟩ := clientsOk.waiting_of_queued queued
  rw [asked.idle cli registered rfl] at waiting
  cases waiting

theorem Asked.request_of_ne {queues : TubeName → List CliPtr}
    (asked : Asked cli reqID watchedTubes resvDeadlineAt queues jsm middle) {other : CliPtr}
    (different : other ≠ cli) :
    (middle.clientAt other).openRequest = (jsm.clientAt other).openRequest := by
  have content := asked.content other
  rw [if_neg different] at content
  exact ClientResvEntry.openRequest_of_content content

theorem Asked.mem_entries_iff {queues : TubeName → List CliPtr}
    (asked : Asked cli reqID watchedTubes resvDeadlineAt queues jsm middle) (other : CliPtr) :
    other ∈ middle.clients.entries ↔ other = cli ∨ other ∈ jsm.clients.entries := by
  rw [asked.entries]
  split
  next old =>
    constructor
    · exact Or.inr
    · rintro (rfl | member)
      · exact old
      · exact member
  next =>
    rw [List.mem_append, List.mem_singleton]
    exact or_comm

theorem Asked.board (asked : Asked cli reqID watchedTubes resvDeadlineAt
      (jsm.queuesWith cli watchedTubes) jsm middle) :
    middle.board =
      { jsm.board with
        requests := Function.update jsm.board.requests cli.cliID (some ⟨reqID, resvDeadlineAt⟩)
        lines := fun tubeName =>
          if tubeName ∈ watchedTubes then jsm.board.lines tubeName ++ [cli.cliID]
          else jsm.board.lines tubeName } := by
  obtain ⟨_, deadline, waiting, isReq⟩ := asked.entry
  have own : (middle.clientAt cli).openRequest = some ⟨reqID, resvDeadlineAt⟩ := by
    simp [ClientResvEntry.openRequest, deadline, waiting, isReq]
  ext1
  · funext id
    simp only [JSM.board, asked.frame.recordOf]
  · exact asked.frame.maxJobID
  · funext clientID
    dsimp only
    rw [Function.update_apply]
    split
    next same =>
      subst same
      exact (JSM.requestOf_of_mem asked.registered).trans own
    next different =>
      apply Option.ext
      intro request
      change middle.requestOf clientID = _ ↔ jsm.requestOf clientID = _
      rw [JSM.requestOf_eq_some_iff, JSM.requestOf_eq_some_iff]
      constructor
      · rintro ⟨other, registered, named, asks⟩
        have notCli : other ≠ cli := by
          rintro rfl
          exact different named.symm
        rw [asked.request_of_ne notCli] at asks
        exact ⟨other, ((asked.mem_entries_iff other).mp registered).resolve_left notCli, named,
          asks⟩
      · rintro ⟨other, registered, named, asks⟩
        have notCli : other ≠ cli := by
          rintro rfl
          exact different named.symm
        rw [← asked.request_of_ne notCli] at asks
        exact ⟨other, (asked.mem_entries_iff other).mpr (Or.inr registered), named, asks⟩
  · funext tubeName
    simp only [JSM.board, asked.queues, JSM.queuesWith]
    split
    · rw [List.map_append]
      rfl
    · rfl

/-- A client that asks and is served at once shows nothing but the job that it got. -/
theorem Served.board_of_asked {job : Job} (clientsOk : ClientsOk jsm)
    (asked : Asked cli reqID watchedTubes resvDeadlineAt (jsm.queuesWith cli watchedTubes)
      jsm middle)
    (served : Served kinds nowSecs cli job middle after) (isReady : job.state = .ready) :
    after.board = jsm.board.setJob job.id (some (job.plain.reservedFor nowSecs cli.cliID)) := by
  have own := served.content cli
  rw [if_pos rfl] at own
  have idle : (after.clientAt cli).openRequest = none :=
    (ClientResvEntry.openRequest_eq_none_iff _).mpr
      (ClientResvEntry.fields_of_content_eq own).2.2.1
  have others : ∀ other, other ≠ cli →
      (after.clientAt other).openRequest = (jsm.clientAt other).openRequest := by
    intro other different
    have content := served.content other
    rw [if_neg different] at content
    rw [ClientResvEntry.openRequest_of_content content, asked.request_of_ne different]
  have wasIdle : cli ∈ jsm.clients.entries → (jsm.clientAt cli).openRequest = none := fun old =>
    (ClientResvEntry.openRequest_eq_none_iff _).mpr (asked.idle cli old rfl)
  have registered : ∀ other ∈ after.clients.entries, other ≠ cli →
      other ∈ jsm.clients.entries := by
    intro other member different
    rw [served.entries] at member
    split at member
    · exact ((asked.mem_entries_iff other).mp member).resolve_left different
    · exact ((asked.mem_entries_iff other).mp (List.mem_of_mem_filter member)).resolve_left
        different
  ext1
  · rw [JSM.board_jobs_of_records served.records, Option.map_some,
      Job.plain_reservedFor (by simp [isReady])]
    simp only [JSM.board, asked.frame.recordOf, Board.setJob]
  · exact served.maxJobID.trans asked.frame.maxJobID
  · apply JSM.requestOf_congr
    · intro other _ old
      by_cases same : other = cli
      · rw [same, idle, wasIdle (same ▸ old)]
      · exact others other same
    · intro other member fresh
      by_cases same : other = cli
      · rw [same, idle]
      · exact absurd (registered other member same) fresh
    · intro other old forgotten
      by_cases same : other = cli
      · exact same ▸ wasIdle (same ▸ old)
      · have inMiddle := (asked.mem_entries_iff other).mpr (Or.inr old)
        rw [served.entries] at forgotten
        split at forgotten
        · exact absurd inMiddle forgotten
        · exact absurd (List.mem_filter.mpr ⟨inMiddle, by simpa using same⟩) forgotten
  · funext tubeName
    have absent := asked.notMem_waiting clientsOk tubeName
    have kept : (jsm.waitingAt tubeName).entries.filter (· ≠ cli) =
        (jsm.waitingAt tubeName).entries := by
      rw [List.filter_eq_self]
      intro other member
      simpa using fun same : other = cli => absent (same ▸ member)
    simp only [JSM.board, Board.setJob, served.queues, asked.queues, JSM.queuesWith]
    split
    · rw [List.filter_append, kept]
      simp
    · rw [kept]

theorem emptyReservation_eq (cli : CliPtr) (reqID : ReqID) (status : ReservationStatus) :
    emptyReservation cli reqID status = unmatched cli.cliID reqID status :=
  rfl

theorem Appended.board (strong : kinds.Strong) (ok : ContainersOk kinds jsm)
    (inTime : ¬ (resvDeadlineAt < nowSecs ∨ nowSecs + maxTimeoutSecs < resvDeadlineAt))
    (first : resv.status = .matched →
      ∃ entry, jsm.FirstReady watchedTubes entry ∧ (jsm.jobOf entry).id = resv.jobId)
    (appended : Appended kinds clientId reqID watchedTubes nowSecs resvDeadlineAt resv cli
      jsm middle after) :
    jsm.board.appendReservation clientId reqID watchedTubes nowSecs resvDeadlineAt =
      (.ok (.reservation resv), after.board) := by
  have named := appended.cliID
  subst named
  have free : jsm.board.requests cli.cliID = none := appended.asked.requestOf_none
  have unasked : ¬ (jsm.board.requests cli.cliID).isSome := by simp [free]
  rw [Board.appendReservation, if_neg inTime, if_neg unasked]
  rcases appended.outcome with ⟨rfl, empty, rescheduled⟩ | ⟨tubeName, _, entry, head, served, rfl⟩
  · obtain ⟨_, deadline, waiting, _⟩ := appended.asked.entry
    have hasClock : middle.tickAtFor cli < maxTime := JSM.tickAtFor_lt_maxTime waiting
      (appended.clientsMiddle.deadline cli appended.asked.registered waiting)
    rw [ok.jobs.findSome?_of_empty strong.ready empty,
      rescheduled.board fun never => absurd hasClock never, appended.asked.board]
    rfl
  · obtain ⟨recorded, home⟩ := ok.jobs.recordOf_jobOf (.ready tubeName) strong.ready
      (List.mem_of_head? head)
    have isReady := ((Job.home_eq_ready_iff _ _).mp home).1
    obtain ⟨found, isFirst, isId⟩ := first rfl
    rw [ok.jobs.findSome?_of_firstReady strong.ready recorded isFirst isId,
      served.board_of_asked ok.clients appended.asked isReady]
    rfl

theorem ends_appendReservation_board (strong : kinds.Strong) (ok : ContainersOk kinds jsm)
    (bounded : nowSecs ≤ resvDeadlineAt → resvDeadlineAt ≤ nowSecs + maxTimeoutSecs →
      resvDeadlineAt < maxTime) :
    Shows (appendReservation clientId reqID watchedTubes nowSecs resvDeadlineAt jsm) .reservation
      (jsm.board.appendReservation clientId reqID watchedTubes nowSecs resvDeadlineAt)
      (¬ watchedTubes.Nodup) := by
  by_cases outOfTime : resvDeadlineAt < nowSecs ∨ nowSecs + maxTimeoutSecs < resvDeadlineAt
  · have refused : appendReservation clientId reqID watchedTubes nowSecs resvDeadlineAt jsm =
        .err .invalidResvTimeout jsm := by
      rw [appendReservation, Prog.bind_apply, Prog.require_apply,
        if_neg fun inTime => inTime outOfTime]
      rfl
    rw [refused]
    exact if_pos outOfTime
  apply ((ends_appendReservation ok.jobs ok.clients strong.ready clientId reqID watchedTubes
    bounded).and (ends_appendReservation_jobId ok.clients clientId reqID watchedTubes
      resvDeadlineAt)).mono
  · rintro resv after ⟨⟨_, cli, middle, appended⟩, first⟩
    exact appended.board strong ok outOfTime first
  · rintro error after ⟨⟨rfl, ⟨rfl, late⟩ | ⟨rfl, cli, registered, rfl, waiting⟩⟩, _⟩
    · exact absurd late outOfTime
    · have asks : (after.board.requests cli.cliID).isSome := by
        change (after.requestOf cli.cliID).isSome = true
        rw [JSM.requestOf_of_mem registered]
        simp [ClientResvEntry.openRequest, waiting]
      rw [Board.appendReservation, if_neg outOfTime, if_pos asks]
  · exact fun panics => panics.1

end Append

end Coolbeans
