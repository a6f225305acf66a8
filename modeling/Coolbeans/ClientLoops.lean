import Coolbeans.ClientRounds

/-!
# The outer loop of tickClients ends

Each round of the outer loop takes the first client off the client heap and processes it.  A
client that is put back has a clock that has not passed, so every round leaves fewer clients
that are due, and nobody is processed twice.
-/

namespace Coolbeans

open FiniteMap PositionHeap StatefulProgram

/-! ## A round of the outer loop -/

/-- The client has been taken off the client heap. -/
structure Popped (cli : CliPtr) (before popped : JSM) : Prop extends AnyRunOk popped where
  perm : (cli :: popped.clientHeap).Perm before.clientHeap
  absent : cli ∉ popped.clientHeap
  off : (popped.clientAt cli).heapIndex < 0
  known : cli.addr < popped.nextClient
  tickAt : ∀ other, (popped.clientAt other).tickAt = (before.clientAt other).tickAt
  moved : Repositioned cli before popped

/-- How many clients on the client heap have a clock that has passed. -/
def JSM.dueCount (jsm : JSM) (nowSecs : Int64) : Nat :=
  jsm.clientHeap.countP fun cli => (jsm.clientAt cli).tickAt < nowSecs

/-- The client has been processed: its clock has not passed, and nobody is new on the client
heap. -/
structure Processed (nowSecs : Int64) (cli : CliPtr) (before after : JSM) : Prop
    extends AnyRunOk after where
  heap : ∀ other ∈ after.clientHeap, other ∈ before.clientHeap
  clock : nowSecs ≤ (after.clientAt cli).tickAt
  others : ∀ other, other ≠ cli →
    (after.clientAt other).tickAt = (before.clientAt other).tickAt
  fewer : (before.clientAt cli).tickAt < nowSecs →
    after.dueCount nowSecs + 1 = before.dueCount nowSecs
  waits : WaitsKept (· = cli) before after
  busy : BusyKept nowSecs before after
  owned : JobsOk .ownTouches before → JobsOk .ownTouches after

section Outer

variable {nowSecs : Int64} {cli : CliPtr} {before popped after jsm : JSM}

theorem clientStore_tickAt (memory : CliPtr → ClientResvEntry) (item : CliPtr) (position : Int) :
    (fun other => (clientStore.set memory item position other).tickAt) =
      fun other => (memory other).tickAt := by
  funext other
  simp only [clientStore]
  split
  next same => rw [same]
  next => rfl

theorem AnyRunOk.dequeues (ok : AnyRunOk before) (head : before.clientHeap.head? = some cli) :
    ∃ popped, clientHeapDequeue before = .ok cli popped ∧ Popped cli before popped := by
  have removed := removed_pop clientStore (clientResvLess before.clientAt) ok.lines.tracked head
  have known := ok.lines.allocated cli (Or.inr (Or.inr (List.mem_of_head? head)))
  have moved : Repositioned cli before _ := .of_removed removed
  refine ⟨_, clientHeapDequeue_eq head,
    ⟨ok.jobs.of_clientFrame moved.frame, ok.lines.repositioned known moved⟩,
    removed.perm, removed.notMem clientStore ok.lines.tracked, removed.out.trans_lt (by omega),
    known,
    congrFun (removed.frame (fun memory other => (memory other).tickAt) clientStore_tickAt), moved⟩

theorem ends_updateClientTickAt_off (off : (jsm.clientAt cli).heapIndex < 0) :
    (updateClientTickAt cli jsm).Ends
      (fun _ after => (after.clientHeap = jsm.clientHeap ∨
          after.clientHeap.Perm (cli :: jsm.clientHeap)) ∧
        (after.clientAt cli).tickAt = jsm.tickAtFor cli ∧
        ∀ other, other ≠ cli → (after.clientAt other).tickAt = (jsm.clientAt other).tickAt)
      (fun _ _ => False) False := by
  rw [updateClientTickAt_eq]
  generalize jsm.tickAtFor cli = tickAt
  have own : ((jsm.updateClient cli fun record =>
      { record with tickAt := tickAt }).clientAt cli).tickAt = tickAt := by
    simp [JSM.updateClient]
  have others : ∀ other, other ≠ cli → ((jsm.updateClient cli fun record =>
      { record with tickAt := tickAt }).clientAt other).tickAt = (jsm.clientAt other).tickAt := by
    intro other different
    simp [JSM.updateClient, different]
  split
  · unfold scheduleClient
    rw [readClient_bind, if_pos off]
    have inserted := inserted_push clientStore (clientResvLess (jsm.updateClient cli
      fun record => { record with tickAt := tickAt }).clientAt) cli
      (jsm.updateClient cli fun record => { record with tickAt := tickAt }).clientHeapState
    have clocks := congrFun (inserted.frame (fun memory other => (memory other).tickAt)
      clientStore_tickAt)
    exact ⟨Or.inr inserted.perm, (clocks cli).trans own,
      fun other different => (clocks other).trans (others other different)⟩
  · unfold unscheduleClient
    rw [readClient_bind, if_neg (by omega)]
    exact ⟨Or.inl rfl, own, others⟩

/-- The request of the client has been looked at. -/
theorem Popped.ends_tickClientDeadline (popped : Popped cli before jsm)
    (result : List Reservation) :
    (tickClientDeadline nowSecs cli result jsm).Ends
      (fun _ after => Handling nowSecs cli jsm after) (fun _ _ => False) False := by
  unfold tickClientDeadline
  rw [readClient_bind]
  split
  next late =>
    refine Prog.ends_bind (popped.lines.ends_unReserve late.1) ?_
    rintro _ after ⟨lines, unreserved, nextClient⟩
    refine ⟨⟨popped.jobs.of_clientFrame unreserved.frame, lines⟩, unreserved.clientHeap,
      unreserved.tickAt, unreserved.heapIndex cli, nextClient, fun waiting => ?_,
      unreserved.waitsKept, Or.inl (.of_unreserved unreserved fun busy => ?_),
      fun owned => owned.of_clientFrame unreserved.frame⟩
    · rw [unreserved.idle] at waiting
      cases waiting
    · exact busy.resolve_left fun waits => Int64.not_lt.mpr waits.2 late.2
  next early =>
    exact ⟨popped.toAnyRunOk, rfl, fun _ => rfl, rfl, rfl,
      fun waiting => Int64.not_lt.mp fun late => early ⟨waiting, late⟩, .refl _ _,
      Or.inl (.refl nowSecs jsm), id⟩

theorem halts_tickClient (popped : Popped cli before jsm) (result : List Reservation) :
    (tickClient nowSecs cli result jsm).Halts
      (fun cause => cause ≠ .loopForever ∧ ¬ JobsOk .ownTouches before)
      fun _ after => Processed nowSecs cli before after := by
  have isOwned : JobsOk .ownTouches before → JobsOk .ownTouches jsm := fun owned =>
    owned.of_clientFrame popped.moved.frame
  refine Prog.halts_bind (popped.ends_tickClientDeadline result).halts
    fun result timed handling => ?_
  rw [Prog.gets_bind]
  have few := timed.roundsLeft_lt cli
  refine Prog.halts_bind ((halts_tickClientJobs _ result handling (Or.inl few)).mono
    fun cause panics => ⟨panics.1, fun owned => panics.2 (isOwned owned)⟩) ?_
  rintro result quieted ⟨handling, quiet⟩
  have off : (quieted.clientAt cli).heapIndex < 0 := by
    rw [handling.heapIndex]
    exact popped.off
  have clock : nowSecs ≤ quieted.tickAtFor cli := le_nextClientTickAt handling.deadline quiet
  have busy := handling.busy.resolve_right quiet.not_stuck
  refine Prog.halts_bind (((repositions_updateClientTickAt handling.lines.tracked).and
    (ends_updateClientTickAt_off off)).mono (fun _ _ moved => moved) (fun _ _ fails => fails.1)
    fun panics => panics.2).halts ?_
  rintro _ after ⟨moved, heap, isClock, others⟩
  have known : cli.addr < quieted.nextClient := by
    rw [handling.nextClient]
    exact popped.known
  have sameClock : ∀ other, other ≠ cli →
      (after.clientAt other).tickAt = (before.clientAt other).tickAt := by
    intro other different
    rw [others other different, handling.tickAt, popped.tickAt]
  rw [← isClock] at clock
  rw [handling.clientHeap] at heap
  refine ⟨⟨handling.jobs.of_clientFrame moved.frame, handling.lines.repositioned known moved⟩,
    fun other member => ?_, clock, sameClock, fun due => ?_,
    (popped.moved.waitsKept.trans handling.waits).trans moved.waitsKept,
    (BusyKept.of_repositioned popped.moved).trans (busy.trans (.of_repositioned moved)),
    fun owned => (handling.owned (isOwned owned)).of_clientFrame moved.frame⟩
  · rcases heap with same | entered
    · rw [same] at member
      exact popped.perm.mem_iff.mp (List.mem_cons_of_mem _ member)
    · exact popped.perm.mem_iff.mp (entered.mem_iff.mp member)
  · have rest : jsm.clientHeap.countP (fun other => (after.clientAt other).tickAt < nowSecs) =
        jsm.clientHeap.countP fun other => (before.clientAt other).tickAt < nowSecs := by
      apply List.countP_congr
      intro other member
      rw [sameClock other fun same => popped.absent (same ▸ member)]
    have notDue : ¬ (after.clientAt cli).tickAt < nowSecs := Int64.not_lt.mpr clock
    unfold JSM.dueCount
    rw [← popped.perm.countP_eq, List.countP_cons_of_pos (by simpa using due), ← rest]
    rcases heap with same | entered
    · rw [same]
    · rw [entered.countP_eq, List.countP_cons_of_neg (by simpa using notDue)]

theorem JSM.dueCount_lt (jsm : JSM) (nowSecs : Int64) :
    jsm.dueCount nowSecs < jsm.clientHeap.length + 1 :=
  Nat.lt_succ_of_le List.countP_le_length

theorem halts_tickClientsLoop (rounds : Nat) (result : List Reservation) (ok : AnyRunOk jsm)
    (enough : jsm.dueCount nowSecs < rounds) :
    (tickClientsLoop nowSecs rounds result jsm).Halts
      (fun cause => cause ≠ .loopForever ∧ ¬ JobsOk .ownTouches jsm)
      fun _ after => AnyRunOk after := by
  induction rounds generalizing jsm result with
  | zero => omega
  | succ rounds induction =>
      cases head : jsm.clientHeap.head? with
      | none =>
          rw [tickClientsLoop_of_none head]
          exact ok
      | some cli =>
          by_cases early : nowSecs ≤ (jsm.clientAt cli).tickAt
          · rw [tickClientsLoop_of_early head early]
            exact ok
          · have due := Int64.not_le.mp early
            obtain ⟨popped, dequeues, isPopped⟩ := ok.dequeues head
            rw [tickClientsLoop_of_due head due, Prog.bind_apply, dequeues, Outcome.ok_andThen]
            refine Prog.halts_bind (halts_tickClient isPopped result) fun more after processed => ?_
            have fewer := processed.fewer due
            exact (induction more processed.toAnyRunOk (by omega)).mono fun cause panics =>
              ⟨panics.1, fun owned => panics.2 (processed.owned owned)⟩

end Outer

/-! ## The loops -/

/-- A round of the outer loop: the first client on the heap is due, is taken off the heap and
processed. -/
inductive ClientRound (nowSecs : Int64) (cli : CliPtr) (before after : JSM) : Prop where
  | intro {popped : JSM} {result more : List Reservation}
      (head : before.clientHeap.head? = some cli)
      (due : (before.clientAt cli).tickAt < nowSecs)
      (dequeues : clientHeapDequeue before = .ok cli popped)
      (ticks : tickClient nowSecs cli result popped = .ok more after)

/-- The clients that the outer loop has processed, and the state it has come to. -/
inductive ClientRounds (nowSecs : Int64) (start : JSM) : List CliPtr → JSM → Prop where
  | nil : ClientRounds nowSecs start [] start
  | snoc {processed : List CliPtr} {cli : CliPtr} {before after : JSM}
      (rounds : ClientRounds nowSecs start processed before)
      (round : ClientRound nowSecs cli before after) :
      ClientRounds nowSecs start (processed ++ [cli]) after

/-- The states that the inner loop goes through for a client. -/
inductive InClientLoop (nowSecs : Int64) (start : JSM) (cli : CliPtr) : JSM → Prop where
  | enters {processed : List CliPtr} {before popped timed : JSM} {result more : List Reservation}
      (rounds : ClientRounds nowSecs start processed before)
      (head : before.clientHeap.head? = some cli)
      (dequeues : clientHeapDequeue before = .ok cli popped)
      (answers : tickClientDeadline nowSecs cli result popped = .ok more timed) :
      InClientLoop nowSecs start cli timed
  | goesOn {before after : JSM} (inside : InClientLoop nowSecs start cli before)
      (round : JobRound nowSecs cli before after) : InClientLoop nowSecs start cli after

/-- The client stage begins in the state itself, or after the first two stages of a tick. -/
def AtClientStage (nowSecs : Int64) (jsm start : JSM) : Prop :=
  start = jsm ∨ ∃ walk matched woken, tickDelayStage nowSecs walk jsm = .ok () woken ∧
    tickReadyJobs nowSecs walk woken = .ok matched start

section Loops

variable {nowSecs : Int64} {cli : CliPtr} {start before after jsm : JSM}

theorem ClientRound.processed (round : ClientRound nowSecs cli before after)
    (ok : AnyRunOk before) : Processed nowSecs cli before after := by
  cases round with
  | @intro popped result more head due dequeues ticks =>
      obtain ⟨other, dequeuesTo, isPopped⟩ := ok.dequeues head
      rw [dequeues] at dequeuesTo
      cases dequeuesTo
      have halts : (tickClient nowSecs cli result popped).Halts _ _ :=
        halts_tickClient isPopped result
      rw [ticks] at halts
      exact halts

/-- What the outer loop has done: whoever has been processed was on the heap, and is not due
again. -/
structure RoundsDone (nowSecs : Int64) (start : JSM) (processed : List CliPtr) (last : JSM) :
    Prop extends AnyRunOk last where
  nodup : processed.Nodup
  heap : ∀ cli ∈ last.clientHeap, cli ∈ start.clientHeap
  wasOnHeap : ∀ cli ∈ processed, cli ∈ start.clientHeap
  clock : ∀ cli ∈ processed, nowSecs ≤ (last.clientAt cli).tickAt
  wasDue : ∀ cli ∈ processed, (start.clientAt cli).tickAt < nowSecs
  others : ∀ cli, cli ∉ processed → (last.clientAt cli).tickAt = (start.clientAt cli).tickAt
  waits : WaitsKept (· ∈ processed) start last
  busy : BusyKept nowSecs start last

theorem RoundsDone.snoc {processed : List CliPtr} (done : RoundsDone nowSecs start processed before)
    (round : ClientRound nowSecs cli before after) :
    RoundsDone nowSecs start (processed ++ [cli]) after := by
  have step := round.processed done.toAnyRunOk
  obtain ⟨head, due⟩ : before.clientHeap.head? = some cli ∧
      (before.clientAt cli).tickAt < nowSecs := by
    cases round with
    | intro head due _ _ => exact ⟨head, due⟩
  have fresh : cli ∉ processed := fun again =>
    absurd due (Int64.not_lt.mpr (done.clock cli again))
  have onHeap := done.heap cli (List.mem_of_head? head)
  refine ⟨step.toAnyRunOk, ?_, fun other member => done.heap other (step.heap other member),
    fun other member => ?_, fun other member => ?_, fun other member => ?_,
    fun other outside => ?_, ?_, done.busy.trans step.busy⟩
  · rw [List.nodup_append]
    refine ⟨done.nodup, List.nodup_singleton cli, fun other member last isLast same => ?_⟩
    rw [List.mem_singleton.mp isLast] at same
    exact fresh (same ▸ member)
  · rcases List.mem_append.mp member with earlier | isLast
    · exact done.wasOnHeap other earlier
    · rw [List.mem_singleton.mp isLast]
      exact onHeap
  · rcases List.mem_append.mp member with earlier | isLast
    · rw [step.others other fun same => fresh (same ▸ earlier)]
      exact done.clock other earlier
    · rw [List.mem_singleton.mp isLast]
      exact step.clock
  · rcases List.mem_append.mp member with earlier | isLast
    · exact done.wasDue other earlier
    · rw [List.mem_singleton.mp isLast, ← done.others cli fresh]
      exact due
  · rw [List.mem_append, List.mem_singleton, not_or] at outside
    rw [step.others other outside.2, done.others other outside.1]
  · refine (done.waits.mono ?_).trans (step.waits.mono ?_)
    · exact fun other earlier => List.mem_append_left _ earlier
    · rintro other rfl
      exact List.mem_append_right _ (List.mem_singleton_self other)

theorem ClientRounds.done {processed : List CliPtr} {last : JSM}
    (rounds : ClientRounds nowSecs start processed last) (ok : AnyRunOk start) :
    RoundsDone nowSecs start processed last := by
  induction rounds with
  | nil =>
      exact ⟨ok, List.nodup_nil, fun _ member => member, by simp, by simp, by simp, by simp,
        .refl _ _, .refl _ _⟩
  | snoc rounds round induction => exact induction.snoc round

/-- A loop that returns has made rounds until nobody on the client heap was due. -/
theorem ClientRounds.of_returns {processed : List CliPtr}
    (rounds : ClientRounds nowSecs start processed before) (ok : AnyRunOk start) (fuel : Nat)
    {result more : List Reservation} {last : JSM}
    (returns : tickClientsLoop nowSecs fuel result before = .ok more last) :
    ∃ all, ClientRounds nowSecs start all last ∧
      ∀ cli, last.clientHeap.head? = some cli → nowSecs ≤ (last.clientAt cli).tickAt := by
  induction fuel generalizing processed result before with
  | zero => cases returns
  | succ fuel induction =>
      cases head : before.clientHeap.head? with
      | none =>
          rw [tickClientsLoop_of_none head] at returns
          cases returns
          exact ⟨processed, rounds, fun cli isFirst => by rw [head] at isFirst; cases isFirst⟩
      | some cli =>
          by_cases early : nowSecs ≤ (before.clientAt cli).tickAt
          · rw [tickClientsLoop_of_early head early] at returns
            cases returns
            refine ⟨processed, rounds, fun other isFirst => ?_⟩
            rw [head] at isFirst
            cases isFirst
            exact early
          · have due := Int64.not_le.mp early
            obtain ⟨popped, dequeues, _⟩ := (rounds.done ok).dequeues head
            rw [tickClientsLoop_of_due head due, Prog.bind_apply, dequeues,
              Outcome.ok_andThen] at returns
            obtain ⟨more, after, ticks, returns⟩ := Prog.ok_of_bind returns
            exact induction (rounds.snoc (.intro head due dequeues ticks)) returns

theorem InClientLoop.handling (inside : InClientLoop nowSecs start cli jsm) (ok : AnyRunOk start) :
    ∃ popped, Handling nowSecs cli popped jsm := by
  induction inside with
  | @enters processed before popped timed result more rounds head dequeues answers =>
      obtain ⟨other, dequeuesTo, isPopped⟩ := (rounds.done ok).dequeues head
      rw [dequeues] at dequeuesTo
      cases dequeuesTo
      have timed : (tickClientDeadline nowSecs cli result popped).Ends _ _ _ :=
        isPopped.ends_tickClientDeadline result
      rw [answers] at timed
      exact ⟨popped, timed⟩
  | goesOn inside round induction =>
      obtain ⟨popped, handling⟩ := induction
      exact ⟨popped, (round.handling handling).1⟩

theorem AtClientStage.anyRunOk (stage : AtClientStage nowSecs jsm start) (ok : AnyRunOk jsm) :
    AnyRunOk start := by
  rcases stage with rfl | ⟨walk, matched, woken, wakes, serves⟩
  · exact ok
  · have rules : TickRules nowSecs (NobodyCame jsm) _ := tickRules_nobodyCame jsm
    have isWoken := rules.keeps_tickDelayStage walk jsm (.refl ok)
    rw [wakes] at isWoken
    have isServed := rules.keeps_tickReadyJobs walk woken isWoken
    rw [serves] at isServed
    exact isServed.toAnyRunOk

/-- In every reachable state and at every clock the loops of `tickClients` end: the outer loop
processes clients of the client heap, each at most once, and a client that it has put back has a
clock that has not passed; and a round of the inner loop stops it, or goes on after it has
released one reserved job or cleared the flag of a waiting client, or ends the process. -/
theorem tickClients_terminates {admits : JSM → Op → Prop} (reachable : Reachable admits jsm)
    (nowSecs : Int64) (stage : AtClientStage nowSecs jsm start) :
    tickClients nowSecs start ≠ .panic .loopForever ∧
    (∀ result last, tickClients nowSecs start = .ok result last →
      ∃ processed, ClientRounds nowSecs start processed last ∧
        ∀ cli, last.clientHeap.head? = some cli → nowSecs ≤ (last.clientAt cli).tickAt) ∧
    (∀ processed last, ClientRounds nowSecs start processed last →
      processed.Nodup ∧ ∀ cli ∈ processed, cli ∈ start.clientHeap ∧
        nowSecs ≤ (last.clientAt cli).tickAt) ∧
    ∀ cli before, InClientLoop nowSecs start cli before → ∀ rounds result,
      tickClientJobs nowSecs cli (rounds + 1) result before = .ok result before ∨
      (∃ after more, (ReleasesOne before after ∨ ClearsFlag cli before after) ∧
        tickClientJobs nowSecs cli (rounds + 1) result before =
          tickClientJobs nowSecs cli rounds more after) ∨
      ∃ cause, cause ≠ .loopForever ∧
        tickClientJobs nowSecs cli (rounds + 1) result before = .panic cause := by
  have ok := stage.anyRunOk (anyRunOk_of_reachable reachable)
  refine ⟨?_, ?_, ?_, ?_⟩
  · have halts : (tickClients nowSecs start).Halts _ _ :=
      halts_tickClientsLoop _ [] ok (start.dueCount_lt nowSecs)
    intro panics
    rw [panics] at halts
    exact halts.1 rfl
  · exact fun result last returns => ClientRounds.nil.of_returns ok _ returns
  · intro processed last rounds
    have done := rounds.done ok
    exact ⟨done.nodup, fun cli member => ⟨done.wasOnHeap cli member, done.clock cli member⟩⟩
  · intro cli before inside rounds result
    obtain ⟨popped, handling⟩ := inside.handling ok
    rcases handling.toAnyRunOk.tickClientJobs_round rounds result with
      ⟨stops, _⟩ | ⟨after, more, round, goesOn⟩ | ⟨cause, ⟨different, _⟩, panics⟩
    · exact Or.inl stops
    · exact Or.inr (Or.inl ⟨after, more, (round.handling handling).2.1, goesOn⟩)
    · exact Or.inr (Or.inr ⟨cause, different, panics⟩)

/-- A client with two reserved jobs waits for a third. -/
def waitsWithTwoJobs : List Op :=
  [.put 0 1 0 10 0 none [1], .put 0 1 0 10 0 none [1], .appendReservation [7] [1] [[1]] 0 20,
    .appendReservation [7] [2] [[1]] 5 20, .appendReservation [7] [3] [[1]] 6 20]

/-- One job is released, and the client is told that the deadline of the other is soon. -/
theorem tickClients_terminates_twoJobs :
    ∃ last processed, (tickClients 15 (stateAfter waitsWithTwoJobs)).state? = some last ∧
      (tickClients 15 (stateAfter waitsWithTwoJobs)).reply?.map (Except.map fun answers =>
        answers.map (·.status)) = some (.ok [.deadlineSoon]) ∧
      ClientRounds 15 (stateAfter waitsWithTwoJobs) processed last ∧ processed.Nodup := by
  have reachable : Reachable (fun _ _ => True) (stateAfter waitsWithTwoJobs) :=
    reachable_stateAfter _ fun _ _ _ => trivial
  have answers : (tickClients 15 (stateAfter waitsWithTwoJobs)).reply?.map (Except.map
      fun answers => answers.map (·.status)) = some (.ok [.deadlineSoon]) := by
    decide +kernel
  obtain ⟨_, finds, once, _⟩ := tickClients_terminates reachable 15 (Or.inl rfl)
  cases outcome : tickClients 15 (stateAfter waitsWithTwoJobs) with
  | ok result last =>
      obtain ⟨processed, rounds, _⟩ := finds result last outcome
      rw [outcome] at answers
      exact ⟨last, processed, rfl, answers, rounds, (once processed last rounds).1⟩
  | err error last =>
      rw [outcome] at answers
      cases answers
  | panic cause =>
      rw [outcome] at answers
      cases answers

end Loops

end Coolbeans
