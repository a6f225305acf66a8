import Coolbeans.ClientLoops
import Coolbeans.MatchOrder
import Mathlib.Data.Set.Card

/-!
# Clients that are forgotten

A client that neither waits nor holds a job needs no processing, and `updateClientTickAt` means
to take it off the client heap and out of the client queue.  It does both only for a client that
it finds on the heap.  `tickClients` takes the client off the heap before, so a client that a
tick leaves idle stays in the client queue.
-/

namespace Coolbeans

open FiniteMap PositionHeap StatefulProgram

/-! ## Idle clients -/

/-- The client has a job on its reserved heap. -/
def JSM.Holds (jsm : JSM) (cli : CliPtr) : Prop :=
  jsm.heapAt (.reserved cli.cliID) ≠ []

instance JSM.Holds.decidable (jsm : JSM) (cli : CliPtr) : Decidable (jsm.Holds cli) :=
  inferInstanceAs (Decidable (jsm.heapAt (.reserved cli.cliID) ≠ []))

/-- The client does not wait and has no reserved job. -/
def JSM.Idle (jsm : JSM) (cli : CliPtr) : Prop :=
  (jsm.clientAt cli).isWaitingForResv = false ∧ ¬ jsm.Holds cli

instance JSM.Idle.decidable (jsm : JSM) (cli : CliPtr) : Decidable (jsm.Idle cli) :=
  inferInstanceAs (Decidable ((jsm.clientAt cli).isWaitingForResv = false ∧ ¬ jsm.Holds cli))

theorem JSM.busy_of_not_idle {jsm : JSM} {cli : CliPtr} (notIdle : ¬ jsm.Idle cli) :
    (jsm.clientAt cli).isWaitingForResv = true ∨ jsm.Holds cli := by
  by_contra neither
  rw [not_or, Bool.not_eq_true] at neither
  exact notIdle neither

/-- The client is neither on the client heap nor in the client queue. -/
def JSM.Forgotten (jsm : JSM) (cli : CliPtr) : Prop :=
  cli ∉ jsm.clientHeap ∧ cli ∉ jsm.clients.entries

/-- An idle client is forgotten if it is found on the client heap; else it stays where it is. -/
theorem updateClientTickAt_idle {jsm : JSM} {cli : CliPtr}
    (tracked : Tracked clientStore jsm.clientHeapState) (placed : jsm.Placed cli)
    (idle : jsm.Idle cli) :
    ∃ after, updateClientTickAt cli jsm = .ok () after ∧
      (after.Forgotten cli ↔ cli ∈ jsm.clientHeap ∨ cli ∉ jsm.clients.entries) := by
  obtain ⟨idle, empty⟩ := idle
  have noJob : jsm.heapAt (.reserved cli.cliID) = [] := Classical.not_not.mp empty
  have isClock : jsm.tickAtFor cli = maxTime := by
    simp [JSM.tickAtFor, JSM.firstExpiry, noJob, nextClientTickAt, idle]
  rw [updateClientTickAt_eq, isClock, if_neg Int64.lt_irrefl]
  unfold unscheduleClient
  rw [readClient_bind]
  by_cases onHeap : cli ∈ jsm.clientHeap
  · obtain ⟨i, position, occupied⟩ := Tracked.heapIndex tracked onHeap
    have removed := removed_remove clientStore (clientResvLess jsm.clientAt) tracked occupied
    rw [if_pos (by omega), Prog.bind_apply,
      Prog.attempt_of_ok (clientHeapRemove_eq position occupied), Outcome.ok_andThen]
    dsimp only
    generalize PositionHeap.remove clientStore (clientResvLess jsm.clientAt) i
      jsm.clientHeapState = heap at removed
    have gone : cli ∉ heap.items := removed.notMem clientStore tracked
    cases removes : jsm.clients.remove cli with
    | ok clients =>
        have forgets : removeClient cli (jsm.putClientHeap heap) =
            .ok () { jsm.putClientHeap heap with clients := clients } := by
          have same : (jsm.putClientHeap heap).clients.remove cli = .ok clients := removes
          simp only [removeClient, same]
        rw [Prog.bind_apply, Prog.attempt_of_ok forgets, Outcome.ok_andThen]
        refine ⟨_, rfl, iff_of_true ⟨gone, fun registered => ?_⟩ (Or.inl onHeap)⟩
        have member := jsm.clients.subset_of_remove removes cli registered
        obtain ⟨others, removesTo, entries⟩ := jsm.clients.remove_of_mem member
        rw [removes] at removesTo
        cases removesTo
        have registered : cli ∈ clients.entries := registered
        rw [entries] at registered
        exact absurd rfl (of_decide_eq_true (List.mem_filter.mp registered).2)
    | error error =>
        have isMissing := jsm.clients.eq_entryMissing_of_remove removes
        subst isMissing
        have misses : removeClient cli (jsm.putClientHeap heap) =
            .err .entryMissing (jsm.putClientHeap heap) := by
          have same : (jsm.putClientHeap heap).clients.remove cli = .error .entryMissing := removes
          simp only [removeClient, same]
        rw [Prog.bind_apply, Prog.attempt_of_err misses, Outcome.ok_andThen]
        refine ⟨_, rfl, iff_of_true ⟨gone, fun registered => ?_⟩ (Or.inl onHeap)⟩
        obtain ⟨_, removesTo, _⟩ := jsm.clients.remove_of_mem registered
        rw [removes] at removesTo
        cases removesTo
  · rw [if_neg (by have := placed.resolve_left onHeap; omega)]
    refine ⟨_, rfl, ?_⟩
    change cli ∉ jsm.clientHeap ∧ cli ∉ jsm.clients.entries ↔ _
    simp [onHeap]

/-! ## Looking at clients -/

/-- `tickClients`, begun in the state `start`, calls `updateClientTickAt` for the client in
the state `jsm`. -/
inductive ClientLook (nowSecs : Int64) (start : JSM) (cli : CliPtr) (jsm : JSM) : Prop where
  | intro {processed : List CliPtr} {before popped timed : JSM}
      {result more last : List Reservation}
      (rounds : ClientRounds nowSecs start processed before)
      (head : before.clientHeap.head? = some cli)
      (due : (before.clientAt cli).tickAt < nowSecs)
      (dequeues : clientHeapDequeue before = .ok cli popped)
      (answers : tickClientDeadline nowSecs cli result popped = .ok more timed)
      (releases : tickClientJobs nowSecs cli ((timed.heapAt (.reserved cli.cliID)).length + 2)
        more timed = .ok last jsm)

/-- The states in which a client is looked at: the state itself, for a client that it knows, and
those that a tick goes through. -/
inductive LooksAt (jsm : JSM) (cli : CliPtr) : JSM → Prop where
  | between (known : cli ∈ jsm.clients.entries ∨ cli ∈ jsm.clientHeap) : LooksAt jsm cli jsm
  | inTick {nowSecs : Int64} {start state : JSM} (stage : AtClientStage nowSecs jsm start)
      (look : ClientLook nowSecs start cli state) : LooksAt jsm cli state

section Looks

variable {nowSecs : Int64} {cli : CliPtr} {start before after jsm state : JSM}

theorem ClientLook.off (look : ClientLook nowSecs start cli jsm) (ok : AnyRunOk start) :
    AnyRunOk jsm ∧ (jsm.clientAt cli).heapIndex < 0 ∧ cli ∉ jsm.clientHeap := by
  cases look with
  | @intro processed before popped timed result more last rounds head due dequeues answers
      releases =>
      obtain ⟨other, dequeuesTo, isPopped⟩ := (rounds.done ok).dequeues head
      rw [dequeues] at dequeuesTo
      cases dequeuesTo
      have isTimed : (tickClientDeadline nowSecs cli result popped).Ends _ _ _ :=
        isPopped.ends_tickClientDeadline result
      rw [answers] at isTimed
      have quiets := halts_tickClientJobs _ more isTimed (Or.inl (timed.roundsLeft_lt cli))
      rw [releases] at quiets
      obtain ⟨handling, _⟩ := quiets
      refine ⟨handling.toAnyRunOk, ?_, ?_⟩
      · rw [handling.heapIndex]
        exact isPopped.off
      · rw [handling.clientHeap]
        exact isPopped.absent

theorem LooksAt.placed (looks : LooksAt jsm cli state) (ok : AnyRunOk jsm) :
    Tracked clientStore state.clientHeapState ∧ state.Placed cli := by
  cases looks with
  | between known =>
      refine ⟨ok.lines.tracked, ?_⟩
      rcases known with registered | onHeap
      · exact ok.lines.placed cli (Or.inl registered)
      · exact Or.inl onHeap
  | inTick stage look =>
      obtain ⟨okState, off, _⟩ := look.off (stage.anyRunOk ok)
      exact ⟨okState.lines.tracked, Or.inr off⟩

end Looks

/-! ## What a step does to waiting clients -/

/-- The answer gives a job to the client. -/
def Answer.Matches (answer : Answer) (cli : CliPtr) : Prop :=
  ∃ resv, (answer = .ok (.reservation resv) ∨
      ∃ resvs, answer = .ok (.reservations resvs) ∧ resv ∈ resvs) ∧
    resv.status = .matched ∧ resv.clientId = cli.cliID

/-- The clients that the operation processes: a tick takes them off the client heap in turn. -/
def Op.Processes (op : Op) (before after : JSM) (processed : List CliPtr) : Prop :=
  match op with
  | .tick nowSecs walk => ∃ woken matched served,
      tickDelayStage nowSecs walk before = .ok () woken ∧
      tickReadyJobs nowSecs walk woken = .ok matched served ∧
      ClientRounds nowSecs served processed after
  | _ => processed = []

section Steps

variable {jsm before after : JSM} {op : Op} {answer : Answer} {processed : List CliPtr}

/-- A client that asks gets a job or waits, and nobody else is touched. -/
theorem ends_appendReservation_waits (ok : AnyRunOk jsm) (clientId : ClientID) (reqID : ReqID)
    (watchedTubes : List TubeName) (nowSecs resvDeadlineAt : Int64) :
    (appendReservation clientId reqID watchedTubes nowSecs resvDeadlineAt jsm).Ends
      (fun resv after => WaitsKept (fun cli => (after.clientAt cli).isWaitingForResv = true ∨
        Answer.Matches (.ok (.reservation resv)) cli) jsm after)
      (fun _ after => after = jsm) True := by
  unfold appendReservation
  rw [Prog.bind_apply, Prog.require_apply]
  split
  swap
  · rfl
  rw [Outcome.ok_andThen]
  refine Prog.ends_bind (ok.lines.ends_enters clientId reqID watchedTubes resvDeadlineAt)
    fun cli registered joins => Prog.ends_bind (joins.mono (fun _ _ joined => joined)
      (fun _ _ => False.elim) id) ?_
  rintro _ middle ⟨lines, frame, _, _, kept, waiting, queued, _⟩
  have okMiddle : AnyRunOk middle := ⟨ok.jobs.of_clientFrame frame, lines⟩
  refine Prog.ends_bind ((ends_firstMatch watchedTubes
    queued fun tubeName member entry head => (okMiddle.inLine.ends_reserveFor
      (queued tubeName member) (List.mem_of_head? head)).mono (fun _ _ handed => handed.2)
      (fun _ _ => id) id).mono (fun _ _ found => found) (fun _ _ => False.elim) False.elim) ?_
  rintro result after (⟨rfl, rfl, _⟩ | ⟨entry, resv, _, ⟨handed, rfl⟩, rfl⟩)
  · refine Prog.ends_bind ((repositions_updateClientTickAt lines.tracked).mono
      (fun _ _ moved => moved) (fun _ _ => False.elim) fun _ => trivial) ?_
    intro _ final moved
    have sameClients : WaitsKept (fun _ => False) after final := moved.waitsKept
    refine (kept.trans moved.waitsKept).mono ?_
    rintro other rfl
    left
    rw [sameClients.waits other id]
    exact waiting
  · refine (kept.trans handed.waits).mono ?_
    rintro other rfl
    exact Or.inr ⟨_, Or.inl rfl, rfl, rfl⟩

/-- A tick answers the clients that it has matched, before it looks at clients. -/
theorem Op.Steps.matches_tick {nowSecs : Int64} {walk : TubeWalk} {woken served : JSM}
    {matched : List Reservation} (steps : Op.Steps (.tick nowSecs walk) before answer after)
    (wakes : tickDelayStage nowSecs walk before = .ok () woken)
    (serves : tickReadyJobs nowSecs walk woken = .ok matched served) (ok : AnyRunOk served) :
    ∃ answered, answer = .ok (.reservations (matched ++ answered)) ∧
      tickClients nowSecs served = .ok answered after := by
  have halts : (tickClients nowSecs served).Halts _ fun _ after => AnyRunOk after :=
    halts_tickClientsLoop _ [] ok (served.dueCount_lt nowSecs)
  obtain ⟨replies, leaves⟩ := steps
  have runs : Op.run (.tick nowSecs walk) before =
      (Reply.reservations <$> (tickClients nowSecs >>= fun answered =>
        pure (matched ++ answered)) : JSMProg Reply) served := by
    change (Reply.reservations <$> Coolbeans.tick nowSecs walk : JSMProg Reply) before = _
    rw [Prog.map_apply, Prog.map_apply]
    unfold Coolbeans.tick
    rw [Prog.bind_apply, wakes, Outcome.ok_andThen, Prog.bind_apply, serves, Outcome.ok_andThen]
  rw [runs] at replies leaves
  rw [Prog.map_apply, Prog.bind_apply] at replies leaves
  cases outcome : tickClients nowSecs served with
  | ok answered last =>
      rw [outcome] at replies leaves
      cases replies
      cases leaves
      exact ⟨answered, rfl, rfl⟩
  | err error last =>
      rw [outcome] at halts
      exact halts.elim
  | panic cause =>
      rw [outcome] at leaves
      cases leaves

/-- Whoever has not been processed, does not wait and gets no job did not wait before. -/
theorem Op.Steps.waitsKept (steps : op.Steps before answer after) (ok : AnyRunOk before)
    (processes : op.Processes before after processed) :
    WaitsKept (fun cli => cli ∈ processed ∨ (after.clientAt cli).isWaitingForResv = true ∨
      answer.Matches cli) before after := by
  by_cases serves : op.servesClients = false
  · have same : JobsOk .anyRun after ∧ after.clientView = before.clientView :=
      steps.keeps (ends_run_clientView ok.jobs op serves)
    exact .of_clientView same.2
  cases op with
  | touch nowSeconds jobID clientID =>
      have kept : NobodyCame before after ∧ ∀ chosen, WaitsKept chosen before after :=
        steps.keeps (Prog.ends_map (ends_touch_any ok nowSeconds jobID clientID))
      exact kept.2 _
  | appendReservation clientId reqID watchedTubes nowSecs resvDeadlineAt =>
      apply steps.meets fun answer after => WaitsKept (fun cli => cli ∈ processed ∨
        (after.clientAt cli).isWaitingForResv = true ∨ answer.Matches cli) before after
      refine Prog.ends_map ((ends_appendReservation_waits ok clientId reqID watchedTubes nowSecs
        resvDeadlineAt).mono (fun _ _ kept => kept.mono fun _ => Or.inr) ?_ id)
      rintro _ _ rfl
      exact .refl _ _
  | tick nowSecs walk =>
      obtain ⟨woken, matched, served, wakes, serves, rounds⟩ := processes
      have isWoken : (tickDelayStage nowSecs walk before).Ends _ _ _ :=
        ends_tickDelayStage ok.jobs (Or.inr rfl) walk
      rw [wakes] at isWoken
      have okWoken : AnyRunOk woken := ok.of_clientView isWoken.jobs isWoken.clients
      have okServed := AtClientStage.anyRunOk (Or.inr ⟨walk, matched, woken, wakes, serves⟩) ok
      obtain ⟨pairs, last, _, inTurn, _, returns⟩ :=
        serving_inLine.exists_tickReadyJobs (Or.inl rfl) okWoken.inLine walk
      rw [serves] at returns
      cases returns
      obtain ⟨answered, rfl, _⟩ := steps.matches_tick wakes serves okServed
      refine ((WaitsKept.of_clientView isWoken.clients).trans
        ((inTurn.waitsKept serving_inLine.hands).mono ?_)).trans
        ((rounds.done okServed).waits.mono fun _ => Or.inl)
      intro cli member
      obtain ⟨pair, inPairs, rfl⟩ := List.mem_map.mp member
      refine Or.inr (Or.inr ⟨_, Or.inr ⟨_, rfl, List.mem_append_left _
        (List.mem_map.mpr ⟨pair, inPairs, rfl⟩)⟩, rfl, rfl⟩)
  | _ => exact absurd rfl serves

theorem Op.Steps.waited (steps : op.Steps before answer after) (ok : AnyRunOk before)
    {cli : CliPtr} (waiting : (after.clientAt cli).isWaitingForResv = true) :
    (before.clientAt cli).isWaitingForResv = true ∨ ∃ reqID watchedTubes nowSecs resvDeadlineAt,
      op = .appendReservation cli.cliID reqID watchedTubes nowSecs resvDeadlineAt := by
  by_cases serves : op.servesClients = false
  · have same : JobsOk .anyRun after ∧ after.clientView = before.clientView :=
      steps.keeps (ends_run_clientView ok.jobs op serves)
    rw [(JSM.fields_of_clientView same.2).2.2.1] at waiting
    exact Or.inl waiting
  cases op with
  | touch nowSeconds jobID clientID =>
      have kept : NobodyCame before after ∧ ∀ chosen, WaitsKept chosen before after :=
        steps.keeps (Prog.ends_map (ends_touch_any ok nowSeconds jobID clientID))
      exact Or.inl (kept.1.waits cli waiting)
  | tick nowSecs walk =>
      have kept : NobodyCame before after := steps.keeps
        (Prog.ends_map ((tickRules_nobodyCame before).keeps_tick walk before (.refl ok)))
      exact Or.inl (kept.waits cli waiting)
  | appendReservation clientId reqID watchedTubes nowSecs resvDeadlineAt =>
      let post : JSM → Prop := fun after => (after.clientAt cli).isWaitingForResv = true →
        (before.clientAt cli).isWaitingForResv = true ∨ cli.cliID = clientId
      have asks : post after := by
        refine steps.keeps (Prog.ends_map (ends_appendReservation_of Or.inl
          ((ok.lines.ends_enters clientId reqID watchedTubes resvDeadlineAt).mono
            (fun asker middle joins => ?_) ?_ id)))
        · refine joins.mono ?_ (fun _ _ => False.elim) id
          rintro _ middle ⟨lines, frame, known, _, kept, _, _, isClient⟩
          refine ⟨_, _, matchRules_nobodyCame middle, .refl ⟨ok.jobs.of_clientFrame frame, lines⟩,
            known, fun final nobodyCame stillWaits => ?_⟩
          by_cases same : cli = asker
          · exact Or.inr (same ▸ isClient)
          · rw [← kept.waits cli same]
            exact Or.inl (nobodyCame.waits cli stillWaits)
        · rintro _ after rfl
          exact Or.inl
      rcases asks waiting with earlier | rfl
      · exact Or.inl earlier
      · exact Or.inr ⟨_, _, _, _, rfl⟩
  | _ => exact absurd rfl serves

theorem Op.Steps.exists_processes (steps : op.Steps before answer after) (ok : AnyRunOk before) :
    ∃ processed, op.Processes before after processed := by
  cases op with
  | tick nowSecs walk =>
      have wakesUp : (tickDelayStage nowSecs walk before).Ends _ _ _ :=
        ends_tickDelayStage ok.jobs (Or.inr rfl) walk
      obtain ⟨_, woken, wakes, isWoken⟩ := wakesUp.returns
      have okWoken : AnyRunOk woken := ok.of_clientView isWoken.jobs isWoken.clients
      have serving : Serving .anyRun nowSecs InLine (Handed .anyRun nowSecs) := serving_inLine
      obtain ⟨pairs, served, _, _, _, serves⟩ :=
        serving.exists_tickReadyJobs (Or.inl rfl) okWoken.inLine walk
      have okServed := AtClientStage.anyRunOk (Or.inr ⟨walk, _, woken, wakes, serves⟩) ok
      obtain ⟨answered, _, returns⟩ := steps.matches_tick wakes serves okServed
      obtain ⟨processed, rounds, _⟩ := ClientRounds.nil.of_returns okServed _ returns
      exact ⟨processed, woken, _, served, wakes, serves, rounds⟩
  | _ => exact ⟨[], rfl⟩

end Steps

/-! ## Clients in the queue -/

/-- A run, with the clients that have held a reserved job since they were last processed. -/
inductive Holding (admits : JSM → Op → Prop) : JSM → (CliPtr → Prop) → Prop where
  | start : Holding admits newJSM fun _ => False
  | step {before after : JSM} {held : CliPtr → Prop} {op : Op} {answer : Answer}
      {processed : List CliPtr} (earlier : Holding admits before held)
      (admitted : admits before op) (steps : op.Steps before answer after)
      (processes : op.Processes before after processed) :
      Holding admits after fun cli =>
        after.Holds cli ∨ cli ∉ processed ∧ (held cli ∨ answer.Matches cli)

/-- The state in which a tick begins to look at clients. -/
def JSM.atClients (jsm : JSM) (nowSecs : Int64) (walk : TubeWalk) : Option JSM :=
  ((do
    tickDelayStage nowSecs walk
    tickReadyJobs nowSecs walk : JSMProg (List Reservation)) jsm).state?

/-- The client waits, and its deadline has not passed, or it has a reserved job that has not
expired. -/
def JSM.BusyAt (jsm : JSM) (nowSecs : Int64) (cli : CliPtr) : Prop :=
  (jsm.clientAt cli).isWaitingForResv = true ∧ nowSecs ≤ (jsm.clientAt cli).resvDeadlineAt ∨
    ∃ entry ∈ jsm.heapAt (.reserved cli.cliID), nowSecs ≤ (jsm.jobOf entry).expiresAt

/-- When a tick begins to look at clients, every client in the queue that is due on the client
heap is busy. -/
def LeavesNobodyIdle (before : JSM) : Op → Prop
  | .tick nowSecs walk => ∀ served ∈ before.atClients nowSecs walk, ∀ cli ∈ served.clientHeap,
      cli ∈ served.clients.entries → (served.clientAt cli).tickAt < nowSecs →
        served.BusyAt nowSecs cli
  | _ => True

instance (jsm : JSM) (nowSecs : Int64) : DecidablePred (jsm.BusyAt nowSecs) := fun _ =>
  inferInstanceAs (Decidable (_ ∧ _ ∨ ∃ entry ∈ _, _))

instance (before : JSM) : DecidablePred (LeavesNobodyIdle before)
  | .tick nowSecs walk => inferInstanceAs (Decidable (∀ served ∈ before.atClients nowSecs walk,
      ∀ cli ∈ served.clientHeap, cli ∈ served.clients.entries →
        (served.clientAt cli).tickAt < nowSecs → served.BusyAt nowSecs cli))
  | .put .. | .delete .. | .getJob _ | .peekDelayedJob _ | .peekReadyJob _ | .peekBuriedJob _
  | .release .. | .releaseWith .. | .touch .. | .bury .. | .kick _ | .kickN ..
  | .appendReservation .. => isTrue trivial

section Holding

variable {admits : JSM → Op → Prop} {jsm : JSM} {held : CliPtr → Prop}

theorem Holding.reachable (holding : Holding admits jsm held) : Reachable admits jsm := by
  induction holding with
  | start => exact ⟨[], .nil _⟩
  | step earlier admitted steps processes induction =>
      obtain ⟨events, run⟩ := induction
      exact ⟨_, run.snoc admitted steps⟩

theorem Reachable.exists_holding (reachable : Reachable admits jsm) :
    ∃ held, Holding admits jsm held := by
  let invariant : JSM → Prop := fun jsm => ∃ held, Holding admits jsm held
  have holds : invariant jsm := by
    refine reachable.invariant ⟨_, .start⟩ ?_
    rintro before op answer after ⟨held, holding⟩ admitted steps
    obtain ⟨processed, processes⟩ :=
      steps.exists_processes (anyRunOk_of_reachable holding.reachable)
    exact ⟨_, .step holding admitted steps processes⟩
  exact holds

/-- A client that was busy when a tick began to look at clients is not idle in the end. -/
theorem LeavesNobodyIdle.busy {before after : JSM} {op : Op} {processed : List CliPtr}
    {cli : CliPtr} (leaves : LeavesNobodyIdle before op) (ok : AnyRunOk before)
    (processes : op.Processes before after processed) (isProcessed : cli ∈ processed)
    (registered : cli ∈ after.clients.entries) : ¬ after.Idle cli := by
  cases op with
  | tick nowSecs walk =>
      obtain ⟨woken, matched, served, wakes, serves, rounds⟩ := processes
      have done := rounds.done (AtClientStage.anyRunOk (Or.inr ⟨walk, _, woken, wakes, serves⟩) ok)
      have begins : before.atClients nowSecs walk = some served := by
        rw [JSM.atClients, Prog.bind_apply, wakes, Outcome.ok_andThen, serves]
        rfl
      have busy := leaves served begins cli (done.wasOnHeap cli isProcessed)
        (done.busy.registered cli registered) (done.wasDue cli isProcessed)
      have staysBusy : after.StaysBusy nowSecs cli := by
        refine done.busy.busy cli (busy.imp_right ?_)
        rintro ⟨entry, member, unexpired⟩
        exact JSM.spare_of_unexpired member unexpired
      rintro ⟨idle, empty⟩
      rcases staysBusy with ⟨waiting, _⟩ | ⟨ids, fewer, _⟩
      · rw [idle] at waiting
        cases waiting
      · exact empty (List.ne_nil_of_length_pos (Nat.lt_of_le_of_lt (Nat.zero_le _) fewer))
  | _ =>
      rw [show processed = [] from processes] at isProcessed
      cases isProcessed

/-- Without idle clients after a tick, every client in the queue waits or has held a job. -/
theorem Holding.busy (holding : Holding LeavesNobodyIdle jsm held) :
    ∀ cli ∈ jsm.clients.entries, (jsm.clientAt cli).isWaitingForResv = true ∨ held cli := by
  induction holding with
  | start => exact fun cli registered => absurd registered List.not_mem_nil
  | @step before after held op answer processed earlier admitted steps processes induction =>
      intro cli registered
      have ok := anyRunOk_of_reachable earlier.reachable
      have kept := steps.waitsKept ok processes
      by_cases isProcessed : cli ∈ processed
      · exact (JSM.busy_of_not_idle (admitted.busy ok processes isProcessed registered)).imp_right
          Or.inl
      by_cases waiting : (after.clientAt cli).isWaitingForResv = true
      · exact Or.inl waiting
      right; right
      refine ⟨isProcessed, ?_⟩
      by_cases given : answer.Matches cli
      · exact Or.inr given
      have notChosen : ¬ (cli ∈ processed ∨ (after.clientAt cli).isWaitingForResv = true ∨
          answer.Matches cli) := by
        rintro (again | again | again)
        · exact isProcessed again
        · exact waiting again
        · exact given again
      rw [kept.waits cli notChosen] at waiting
      exact Or.inl ((induction cli (kept.registered cli registered notChosen)).resolve_left waiting)

/-- The clients that wait or have held a reserved job since they were last processed. -/
def JSM.active (jsm : JSM) (held : CliPtr → Prop) : Set ClientID :=
  { id | ∃ cli, cli.cliID = id ∧ ((jsm.clientAt cli).isWaitingForResv = true ∨ held cli) }

/-- `updateClientTickAt` makes an idle client forgotten exactly if the client is on the client
heap or not in the client queue.  In every run in which the clients that are due in a tick are
busy, the queue is never longer than the number of clients that wait or have held a reserved job
since they were last processed. -/
theorem idleClient_forgotten_iff (reachable : Reachable admits jsm) :
    (∀ cli state, LooksAt jsm cli state → state.Idle cli →
      ∃ after, updateClientTickAt cli state = .ok () after ∧
        (after.Forgotten cli ↔ cli ∈ state.clientHeap ∨ cli ∉ state.clients.entries)) ∧
    ∀ held, Holding LeavesNobodyIdle jsm held →
      (jsm.clients.entries.length : ℕ∞) ≤ (jsm.active held).encard := by
  constructor
  · intro cli state looks idle
    obtain ⟨tracked, placed⟩ := looks.placed (anyRunOk_of_reachable reachable)
    exact updateClientTickAt_idle tracked placed idle
  · intro held holding
    let ids := jsm.clients.entries.map CliPtr.cliID
    have distinct : ids.Nodup := jsm.clients.nodup_ids
    have listed : (ids.toFinset : Set ClientID) ⊆ jsm.active held := by
      intro id member
      obtain ⟨cli, registered, rfl⟩ := List.mem_map.mp (List.mem_toFinset.mp member)
      exact ⟨cli, rfl, holding.busy cli registered⟩
    have bound := Set.encard_le_encard listed
    rw [Set.encard_coe_eq_coe_finsetCard, List.toFinset_card_of_nodup distinct,
      List.length_map] at bound
    exact bound

/-- A client that waits is told that the deadline of its job is soon, and deletes the job. -/
def soonThenDeleted : List Op :=
  [.put 0 1 0 10 0 none [1], .appendReservation [7] [1] [[1]] 0 20,
    .appendReservation [7] [2] [[1]] 5 20, .tick 10 .inOrder, .delete 1 [7]]

theorem idleClient_forgotten_iff_soonThenDeleted :
    ∃ after held, (stateAfter soonThenDeleted).Idle ⟨[7], 0⟩ ∧
      updateClientTickAt ⟨[7], 0⟩ (stateAfter soonThenDeleted) = .ok () after ∧
      after.Forgotten ⟨[7], 0⟩ ∧ Holding LeavesNobodyIdle (stateAfter soonThenDeleted) held ∧
      ((stateAfter soonThenDeleted).clients.entries.length : ℕ∞) ≤
        ((stateAfter soonThenDeleted).active held).encard := by
  have reachable : Reachable LeavesNobodyIdle (stateAfter soonThenDeleted) :=
    reachable_of_admitted _ (by decide +kernel)
  obtain ⟨held, holding⟩ := reachable.exists_holding
  obtain ⟨forgets, bounded⟩ := idleClient_forgotten_iff reachable
  have onHeap : (⟨[7], 0⟩ : CliPtr) ∈ (stateAfter soonThenDeleted).clientHeap := by decide +kernel
  have idle : (stateAfter soonThenDeleted).Idle ⟨[7], 0⟩ := by decide +kernel
  obtain ⟨after, returns, forgotten⟩ := forgets ⟨[7], 0⟩ _ (.between (Or.inr onHeap)) idle
  exact ⟨after, held, idle, returns, forgotten.mpr (Or.inl onHeap), holding, bounded held holding⟩

/-- A client waits until its request times out. -/
def timesOut : List Op :=
  [.appendReservation [7] [1] [[1]] 10 20, .tick 21 .inOrder]

/-- The client is answered, and a tick looks at it. -/
def timedOut : JSM :=
  ((do
    let cli ← clientHeapDequeue
    let result ← tickClientDeadline 21 cli []
    tickClientJobs 21 cli 2 result : JSMProg (List Reservation))
      (stateAfter (timesOut.take 1))).state?.getD newJSM

/-- The tick that answers a client with a timeout leaves it idle and in the client queue, while
nobody waits and nobody has held a job. -/
theorem tick_keeps_idleClient :
    (∃ after, LooksAt (stateAfter (timesOut.take 1)) ⟨[7], 0⟩ timedOut ∧
      timedOut.Idle ⟨[7], 0⟩ ∧ updateClientTickAt ⟨[7], 0⟩ timedOut = .ok () after ∧
      ¬ after.Forgotten ⟨[7], 0⟩) ∧
    ∃ held, Holding (fun _ _ => True) (stateAfter timesOut) held ∧
      ¬ ((stateAfter timesOut).clients.entries.length : ℕ∞) ≤
        ((stateAfter timesOut).active held).encard := by
  have asks : Op.Steps (.appendReservation [7] [1] [[1]] 10 20) newJSM
      (.ok (.reservation (emptyReservation ⟨[7], 0⟩ [1] .queued)))
      (stateAfter (timesOut.take 1)) := ⟨by decide +kernel, rfl⟩
  have ticks : Op.Steps (.tick 21 .inOrder) (stateAfter (timesOut.take 1))
      (.ok (.reservations [emptyReservation ⟨[7], 0⟩ [1] .timeout])) (stateAfter timesOut) :=
    ⟨by decide +kernel, rfl⟩
  have reached : Holding (fun _ _ => True) (stateAfter (timesOut.take 1)) _ :=
    .step .start trivial asks rfl
  have okAsked := anyRunOk_of_reachable reached.reachable
  constructor
  · have look : ClientLook 21 (stateAfter (timesOut.take 1)) ⟨[7], 0⟩ timedOut :=
      @ClientLook.intro 21 _ _ _ _ _ _ _ [] _ _ .nil (by decide +kernel) (by decide +kernel) rfl
        rfl rfl
    have wakes : tickDelayStage 21 .inOrder (stateAfter (timesOut.take 1)) =
        .ok () (stateAfter (timesOut.take 1)) := rfl
    have looks := LooksAt.inTick (Or.inr ⟨.inOrder, [], _, wakes, rfl⟩) look
    obtain ⟨tracked, placed⟩ := looks.placed okAsked
    have idle : timedOut.Idle ⟨[7], 0⟩ := by decide +kernel
    obtain ⟨after, returns, forgotten⟩ := updateClientTickAt_idle tracked placed idle
    refine ⟨after, looks, idle, returns, ?_⟩
    rw [forgotten]
    decide +kernel
  · obtain ⟨processed, processes⟩ := ticks.exists_processes okAsked
    refine ⟨_, .step reached trivial ticks processes, ?_⟩
    have one : (stateAfter timesOut).clients.entries.length = 1 := by decide +kernel
    rw [one, Nat.cast_one, Set.one_le_encard_iff_nonempty]
    rintro ⟨id, cli, rfl, waiting | holds | ⟨_, (holds | ⟨_, never | matched⟩) | matched⟩⟩
    · -- only the client that has timed out could wait
      have waited := (ticks.waited okAsked waiting).resolve_right (by simp)
      have allocated := okAsked.lines.allocated cli (Or.inr (Or.inl waited))
      rcases asks.waited ⟨jobsOk_newJSM _, linesOk_newJSM⟩ waited with
        never | ⟨_, _, _, _, isAsked⟩
      · cases never
      · obtain ⟨clientID, addr⟩ := cli
        cases isAsked
        have isFirst : addr = 0 := Nat.lt_one_iff.mp allocated
        subst isFirst
        revert waiting
        decide +kernel
    · exact holds rfl
    · exact holds rfl
    · exact never
    · obtain ⟨resv, isResv | ⟨_, isResv, _⟩, isMatched, _⟩ := matched
      · cases isResv
        cases isMatched
      · cases isResv
    · obtain ⟨resv, isResv | ⟨_, isResv, member⟩, isMatched, _⟩ := matched
      · cases isResv
      · cases isResv
        rw [List.mem_singleton.mp member] at isMatched
        cases isMatched

end Holding

end Coolbeans
