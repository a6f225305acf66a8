import Coolbeans.ExactContainers
import Coolbeans.StepEffects

/-!
# The containers along a run

Callers pass Unix seconds, and list each watched tube once.  Then the job and
the client containers agree in every state of a run, and with clients that
give their ids no operation panics.
-/

namespace Coolbeans

open FiniteMap PositionHeap StatefulProgram

/-- The clock that an operation is given. -/
def Op.clock? : Op → Option Int64
  | .put nowSeconds _ _ _ _ _ _ | .releaseWith nowSeconds _ _ _ _ | .touch nowSeconds _ _
  | .bury nowSeconds _ _ _ | .appendReservation _ _ _ nowSeconds _ | .tick nowSeconds _ =>
      some nowSeconds
  | _ => none

/-- The clock is in Unix seconds. -/
def Op.ClockBounded (op : Op) : Prop :=
  ∀ clock ∈ op.clock?, clock.toInt < 2 ^ 62

-- Named, since all of `Int64` could be searched instead of the one clock.
instance (op : Op) : Decidable op.ClockBounded :=
  Option.decidableForallMem op.clock?

/-- The clock is in Unix seconds, and a request lists no tube twice. -/
structure Op.Proper (op : Op) : Prop where
  clock : ∀ clock ∈ op.clock?, clock.toInt < 2 ^ 62
  tubes : op.TubesNodup

instance (op : Op) : Decidable op.Proper :=
  decidable_of_iff (op.ClockBounded ∧ op.TubesNodup)
    ⟨fun holds => ⟨holds.1, holds.2⟩, fun proper => ⟨proper.clock, proper.tubes⟩⟩

theorem Op.ClockBounded.deadlineBounded {op : Op} (bounded : op.ClockBounded) :
    op.DeadlineBounded := by
  unfold Op.DeadlineBounded
  split
  next nowSecs resvDeadlineAt =>
    intro _ inTime
    have clock := bounded nowSecs rfl
    have floor := nowSecs.le_toInt
    have day : maxTimeoutSecs.toInt = 86400 := by decide
    have last : maxTime.toInt = 2 ^ 63 - 1 := by decide
    rw [Int64.le_iff_toInt_le, Int64.toInt_add, day, Int.bmod_eq_of_le (by omega) (by omega)]
      at inTime
    rw [Int64.lt_iff_toInt_lt]
    omega
  next => trivial

theorem Op.Proper.deadlineBounded {op : Op} (proper : op.Proper) : op.DeadlineBounded :=
  Op.ClockBounded.deadlineBounded proper.clock

/-- The containers of jobs and of clients agree. -/
structure ContainersOk (kinds : Kinds) (jsm : JSM) : Prop where
  jobs : JobsOk kinds jsm
  clients : ClientsOk jsm

theorem clientsOk_newJSM : ClientsOk newJSM where
  inv :=
    { allocated := by simp [newJSM]
      onHeap := by simp [newJSM]
      tracked := by
        intro i cli occupied
        simp [JSM.clientHeapState, newJSM] at occupied
      offHeap := by simp [newJSM]
      ordered := by
        intro c positive bound
        simp [newJSM] at bound
      queued := by simp [newJSM, JSM.waitingAt] }
  deadline := by simp [newJSM]
  nodup := by simp [newJSM]

section Runs

variable {kinds : Kinds} {admits : JSM → Op → Prop} {jsm : JSM}

/-- The conditions under which the operations of a run keep the containers. -/
structure Admissible (kinds : Kinds) (admits : JSM → Op → Prop) : Prop where
  readyExact : kinds .ready
  delayedExact : kinds .delayed
  bounded : ∀ jsm op, admits jsm op → op.DeadlineBounded
  touchesOwn : kinds.held .reserved → ∀ jsm op, admits jsm op → TouchesOwn jsm op
  deletesNoBuried : kinds .buried → ∀ jsm op, admits jsm op → DeletesNoBuried jsm op

theorem Admissible.ends_effect (admissible : Admissible kinds admits)
    (ok : ContainersOk kinds jsm) {op : Op} (admitted : admits jsm op) :
    (op.run jsm).Ends (fun reply => Effect kinds jsm op (.ok reply))
      (fun error => Effect kinds jsm op (.error error))
      (¬ (kinds .reserved ∧ op.TubesNodup)) :=
  Coolbeans.ends_effect ok.jobs ok.clients admissible.readyExact admissible.delayedExact op
    (fun held => admissible.touchesOwn held jsm op admitted)
    (fun isExact => admissible.deletesNoBuried isExact jsm op admitted)
    (admissible.bounded jsm op admitted)

theorem Admissible.effect (admissible : Admissible kinds admits) (ok : ContainersOk kinds jsm)
    {op : Op} {answer : Answer} {after : JSM} (admitted : admits jsm op)
    (steps : op.Steps jsm answer after) : Effect kinds jsm op answer after :=
  steps.meets (Effect kinds jsm op) (admissible.ends_effect ok admitted)

theorem tickDone_of_steps (ok : ContainersOk kinds jsm) (readyExact : kinds .ready)
    (delayedExact : kinds .delayed) {nowSecs : Int64} {walk : TubeWalk} {answer : Answer}
    {after : JSM} (steps : (Op.tick nowSecs walk).Steps jsm answer after) :
    ∃ matched processed answers woken served,
      TickDone kinds nowSecs walk matched processed answers jsm woken served after := by
  refine steps.meets (fun _ after => ∃ matched processed answers woken served,
    TickDone kinds nowSecs walk matched processed answers jsm woken served after)
    (Prog.ends_map ((ends_tick ok.jobs ok.clients readyExact delayedExact walk).mono ?_
      (fun _ _ => False.elim) id))
  intro _ after ticked
  obtain ⟨matched, processed, answers, woken, served, done, _⟩ := ticked
  exact ⟨matched, processed, answers, woken, served, done⟩

theorem Effect.containersOk {op : Op} {answer : Answer} {after : JSM}
    (effect : Effect kinds jsm op answer after) (ok : ContainersOk kinds jsm) :
    ContainersOk kinds after :=
  ⟨effect.jobsOk ok.jobs, effect.clientsOk ok.clients⟩

theorem Admissible.run (admissible : Admissible kinds admits) {start : JSM}
    {events : List (Op × Answer)} (run : Run admits start events jsm)
    (ok : ContainersOk kinds start) : ContainersOk kinds jsm :=
  run.invariant (fun _ _ _ _ ok admitted steps =>
    (admissible.effect ok admitted steps).containersOk ok) ok

theorem containersOk_newJSM : ContainersOk kinds newJSM :=
  ⟨jobsOk_newJSM kinds, clientsOk_newJSM⟩

theorem Admissible.reachable (admissible : Admissible kinds admits)
    (reachable : Reachable admits jsm) : ContainersOk kinds jsm := by
  obtain ⟨events, run⟩ := reachable
  exact admissible.run run containersOk_newJSM

end Runs

theorem admissible_anyRun {admits : JSM → Op → Prop}
    (bounded : ∀ jsm op, admits jsm op → op.DeadlineBounded) : Admissible .anyRun admits where
  readyExact := by simp [Kinds.anyRun]
  delayedExact := by simp [Kinds.anyRun]
  bounded := bounded
  touchesOwn := by simp [Kinds.anyRun]
  deletesNoBuried := by simp [Kinds.anyRun]

theorem admissible_proper : Admissible .anyRun fun _ op => op.Proper :=
  admissible_anyRun fun _ _ proper => proper.deadlineBounded

/-! ## Wait queues -/

/-- The wait queues hold the waiting clients, each in the tubes it watches. -/
structure WaitQueuesConsistent (jsm : JSM) : Prop where
  queued : ∀ tubeName cli, cli ∈ (jsm.waitingAt tubeName).entries ↔
    cli ∈ jsm.clients.entries ∧ (jsm.clientAt cli).isWaitingForResv = true ∧
      tubeName ∈ (jsm.clientAt cli).watchedTubes
  once : ∀ tubeName, (jsm.waitingAt tubeName).entries.Nodup
  present : ∀ tubeName, (jsm.waitingAt tubeName).entries ≠ [] → tubeName ∈ jsm.tubes.keys

/-- In every reachable state the wait queues hold the waiting clients. -/
theorem waitQueuesConsistent_of_reachable {jsm : JSM}
    (reachable : Reachable (fun _ op => op.Proper) jsm) :
    WaitQueuesConsistent jsm := by
  have inv := (admissible_proper.reachable reachable).clients.inv
  refine ⟨fun tubeName cli => ?_, fun tubeName => ?_, fun tubeName someone => ?_⟩
  · rw [inv.queued, JSM.wanted]
    split
    next waiting => simp [waiting]
    next idle => simp [idle]
  · exact (jsm.waitingAt tubeName).nodup_entries
  · obtain ⟨cli, member⟩ := List.exists_mem_of_ne_nil _ someone
    exact (jsm.mem_keys_iff_hasTube tubeName).mpr (jsm.hasTube_of_waiting tubeName member)

/-- A run in which a client waits for two tubes, one of which nobody else uses. -/
def twoTubesWatched : List Op :=
  [.appendReservation [7] [1] [[1], [2]] 10 20, .put 11 5 30 60 0 none [1], .delete 1 [8]]

theorem waitQueuesConsistent_twoTubesWatched :
    ((stateAfter twoTubesWatched).waitingAt [2]).entries.map (·.cliID) = [[7]] ∧
      WaitQueuesConsistent (stateAfter twoTubesWatched) := by
  refine ⟨by decide +kernel, waitQueuesConsistent_of_reachable (reachable_stateAfter _ ?_)⟩
  have proper : ∀ op ∈ twoTubesWatched, op.Proper := by decide
  exact fun op member _ => proper op member

/-! ## Panics -/

/-- The clients give their ids, the clocks are Unix seconds, and no request
lists a tube twice. -/
def WellCalled (jsm : JSM) (op : Op) : Prop :=
  NamesClients jsm op ∧ op.Proper

theorem wellCalled_tick {jsm : JSM} {nowSecs : Int64} {walk : TubeWalk}
    (clock : nowSecs.toInt < 2 ^ 62) : WellCalled jsm (.tick nowSecs walk) := by
  refine ⟨by simp [NamesClients, Op.clientID?], ?_, trivial⟩
  intro read isClock
  cases isClock
  exact clock

theorem admissible_wellCalled : Admissible .ownTouches WellCalled where
  readyExact := by simp [Kinds.ownTouches]
  delayedExact := by simp [Kinds.ownTouches]
  bounded := fun _ _ called => called.2.deadlineBounded
  touchesOwn := fun _ _ _ called => called.1.touchesOwn
  deletesNoBuried := fun impossible => absurd rfl impossible

theorem returns_of_wellCalled {jsm : JSM} (ok : ContainersOk .ownTouches jsm) {op : Op}
    (called : WellCalled jsm op) : ∃ answer after, op.Steps jsm answer after :=
  Op.exists_steps (admissible_wellCalled.ends_effect ok called)
    (not_not.mpr ⟨by simp [Kinds.ownTouches], called.2.tubes⟩)

/-- No operation of a run panics. -/
theorem never_panics {jsm : JSM} (reachable : Reachable WellCalled jsm) (op : Op)
    (called : WellCalled jsm op) (cause : Panic) : op.run jsm ≠ .panic cause := by
  intro panics
  obtain ⟨answer, after, _, left⟩ :=
    returns_of_wellCalled (admissible_wellCalled.reachable reachable) called
  rw [panics] at left
  cases left

/-- A run that leaves a stale entry in a buried heap, a waiting client and a
delayed job. -/
def beforeBusyTick : List Op :=
  buryOne ++ [.delete 1 [7], .appendReservation [8] [2] [[1], [2]] 12 100,
    .put 12 5 3 60 0 none [2]]

theorem never_panics_busyTick :
    ((stateAfter beforeBusyTick).recordOf 2).map (·.state) = some .delayed ∧
      ∀ cause, (Op.tick 50 .inOrder).run (stateAfter beforeBusyTick) ≠ .panic cause := by
  have called : ∀ op ∈ beforeBusyTick, op.clientID? ≠ some [] ∧ op.Proper := by decide
  have reachable : Reachable WellCalled (stateAfter beforeBusyTick) :=
    reachable_stateAfter _ fun op member _ => called op member
  refine ⟨by decide +kernel, never_panics reachable _ ⟨by simp [NamesClients, Op.clientID?], ?_⟩⟩
  exact ⟨by simp [Op.clock?], trivial⟩

/-! ## Watched tubes -/

theorem eraseDups_of_nodup {α : Type} [BEq α] [LawfulBEq α] {items : List α}
    (nodup : items.Nodup) : items.eraseDups = items := by
  induction items with
  | nil => rfl
  | cons item items induction =>
      obtain ⟨fresh, nodup⟩ := List.nodup_cons.mp nodup
      have others : items.filter (fun other => !other == item) = items := by
        apply List.filter_eq_self.mpr
        intro other member
        have different : other ≠ item := fun same => fresh (same ▸ member)
        simpa using different
      rw [List.eraseDups_cons, others, induction nodup]

/-- A request is answered, and its answer, the wait queues and the jobs are as they are for
the list of tubes without the later duplicates. -/
def AppendsAsSet (jsm : JSM) (clientId : ClientID) (reqID : ReqID)
    (watchedTubes : List TubeName) (nowSecs resvDeadlineAt : Int64) : Prop :=
  ∃ resv after once,
    appendReservation clientId reqID watchedTubes nowSecs resvDeadlineAt jsm = .ok resv after ∧
    appendReservation clientId reqID watchedTubes.eraseDups nowSecs resvDeadlineAt jsm =
      .ok resv once ∧
    (∀ tubeName, (after.waitingAt tubeName).entries = (once.waitingAt tubeName).entries) ∧
    ∀ id, after.recordOf id = once.recordOf id

/-- A client that does not wait can ask with a list of tubes as if it were a set exactly if
the list has no duplicates. -/
theorem appendsAsSet_iff_nodup {jsm : JSM}
    (reachable : Reachable (fun _ op => op.DeadlineBounded) jsm) {clientId : ClientID}
    (idle : ∀ cli ∈ jsm.clients.entries, cli.cliID = clientId →
      (jsm.clientAt cli).isWaitingForResv = false)
    (reqID : ReqID) {nowSecs resvDeadlineAt : Int64}
    (valid : ¬ (resvDeadlineAt < nowSecs ∨ nowSecs + maxTimeoutSecs < resvDeadlineAt))
    (bounded : resvDeadlineAt < maxTime) (watchedTubes : List TubeName) :
    AppendsAsSet jsm clientId reqID watchedTubes nowSecs resvDeadlineAt ↔
      watchedTubes.Nodup := by
  have ok := (admissible_anyRun fun _ _ bounded => bounded).reachable reachable
  have ends := ends_appendReservation ok.jobs ok.clients (by simp [Kinds.anyRun]) clientId reqID
    watchedTubes (fun (_ : nowSecs ≤ resvDeadlineAt) _ => bounded)
  constructor
  · intro asSet
    obtain ⟨resv, after, _, returns, _⟩ := asSet
    rw [returns] at ends
    obtain ⟨_, cli, middle, appended⟩ := ends
    exact appended.nodup
  · intro nodup
    cases outcome : appendReservation clientId reqID watchedTubes nowSecs resvDeadlineAt jsm with
    | ok resv after =>
        refine ⟨resv, after, after, outcome, ?_, fun _ => rfl, fun _ => rfl⟩
        rw [eraseDups_of_nodup nodup]
        exact outcome
    | err error after =>
        rw [outcome] at ends
        obtain ⟨_, ⟨_, invalid⟩ | ⟨_, cli, member, named, waiting⟩⟩ := ends
        · exact absurd invalid valid
        · rw [idle cli member named] at waiting
          cases waiting
    | panic cause =>
        rw [outcome] at ends
        exact absurd nodup ends

theorem appendsAsSet_twoTubes :
    AppendsAsSet (stateAfter twoTubesWatched) [8] [2] [[1], [2]] 12 20 :=
  have bounded : ∀ op ∈ twoTubesWatched, op.DeadlineBounded := by decide
  (appendsAsSet_iff_nodup (reachable_stateAfter _ fun op member _ => bounded op member)
    (by decide +kernel) [2] (by decide) (by decide) [[1], [2]]).mpr (by decide)

/-- A tube that is listed twice refuses the client the second time. -/
theorem appendReservation_twice_panics :
    Reachable (fun _ op => op.DeadlineBounded) newJSM ∧
      appendReservation [7] [1] [[1], [1]] 10 20 newJSM = .panic .enqueueToWaitQ ∧
      ((appendReservation [7] [1] [[1]] 10 20 newJSM).reply?.map fun reply =>
        reply.toOption.map (·.status)) = some (some .queued) :=
  ⟨⟨[], .nil newJSM⟩, by rfl, by decide +kernel⟩

end Coolbeans
