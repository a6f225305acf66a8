import Coolbeans.ClientClocks

/-!
# Nothing overdue

After a tick no delayed job, no reservation and no request has passed its
deadline.  A tick sees all of them because the timers are early.
-/

namespace Coolbeans

open FiniteMap PositionHeap StatefulProgram

/-- Nothing has passed its deadline. -/
structure NothingOverdue (nowSecs : Int64) (jsm : JSM) : Prop where
  delayed : ∀ id record, jsm.recordOf id = some record → record.state = .delayed →
    ¬ record.readyAt < nowSecs
  reserved : ∀ id record, jsm.recordOf id = some record → record.state = .reserved →
    ¬ record.expiresAt < nowSecs
  waiting : ∀ cli ∈ jsm.clients.entries, (jsm.clientAt cli).isWaitingForResv = true →
    ¬ (jsm.clientAt cli).resvDeadlineAt < nowSecs
  /-- A waiting client is told that a deadline is soon. -/
  soon : ∀ cli ∈ jsm.clients.entries, (jsm.clientAt cli).isWaitingForResv = true →
    ∀ id record, jsm.recordOf id = some record → record.state = .reserved →
      record.reservedBy = cli.cliID → ¬ record.expiresAt ≤ nowSecs

/-- The clocks that are neither the first nor the last of all. -/
def InnerClock (clock : Int64) : Prop :=
  Int64.minValue < clock ∧ clock < maxTime

instance : DecidablePred InnerClock :=
  fun clock => inferInstanceAs (Decidable (Int64.minValue < clock ∧ clock < maxTime))

/-- The conditions under which a tick keeps up: a job is touched by its owner
only, and the deadlines are inner clocks. -/
structure Timely (jsm : JSM) (op : Op) : Prop where
  touchesOwn : TouchesOwn jsm op
  deadline : op.DeadlineBounded
  expiry : ExpiresWithin InnerClock jsm op

instance (jsm : JSM) (op : Op) : Decidable (Timely jsm op) :=
  decidable_of_iff (TouchesOwn jsm op ∧ op.DeadlineBounded ∧ ExpiresWithin InnerClock jsm op)
    ⟨fun ⟨touchesOwn, deadline, expiry⟩ => ⟨touchesOwn, deadline, expiry⟩,
      fun timely => ⟨timely.touchesOwn, timely.deadline, timely.expiry⟩⟩

theorem admissible_timely : Admissible .ownTouches Timely where
  readyExact := by simp [Kinds.ownTouches]
  delayedExact := by simp [Kinds.ownTouches]
  bounded := fun _ _ timely => timely.deadline
  touchesOwn := fun _ _ _ timely => timely.touchesOwn
  deletesNoBuried := fun impossible => absurd rfl impossible

/-- The timers of a state are early. -/
structure TimersOk (jsm : JSM) : Prop where
  containers : ContainersOk .ownTouches jsm
  delay : DelayTimerOk jsm
  clocks : ClocksOk InnerClock jsm

theorem timersOk_newJSM : TimersOk newJSM where
  containers := containersOk_newJSM
  delay := delayTimerOk_newJSM
  clocks :=
    { owners := by
        intro id record recorded
        cases recorded
      clock := by
        intro cli registered
        cases registered }

section Tick

variable {before after : JSM} {op : Op} {answer : Answer}

theorem TimersOk.of_effect (ok : TimersOk before) (timely : Timely before op)
    (effect : Effect .ownTouches before op answer after) : TimersOk after where
  containers := effect.containersOk ok.containers
  delay := effect.delayTimerOk ok.delay
  clocks := effect.clocksOk ok.containers admissible_timely.readyExact (by simp [Kinds.ownTouches])
    (fun _ inner => inner.2) (fun _ inner => inner.1) timely.expiry timely.touchesOwn ok.clocks

theorem timersOk_of_reachable {jsm : JSM} (reachable : Reachable Timely jsm) : TimersOk jsm :=
  reachable.invariant timersOk_newJSM fun _ _ _ _ ok timely steps =>
    ok.of_effect timely (admissible_timely.effect ok.containers timely steps)

/-- Early timers that have not passed leave nothing overdue. -/
theorem nothingOverdue_of_finished {nowSecs : Int64} {jsm : JSM} (ok : TimersOk jsm)
    (delayed : ∀ id record, jsm.recordOf id = some record → record.state = .delayed →
      nowSecs ≤ record.readyAt)
    (finished : ∀ cli ∈ jsm.clientHeap, nowSecs ≤ (jsm.clientAt cli).tickAt) :
    NothingOverdue nowSecs jsm := by
  have reservedExact : Kinds.ownTouches .reserved := by simp [Kinds.ownTouches]
  have above : ∀ id record, jsm.recordOf id = some record → record.state = .reserved →
      Int64.minValue < record.expiresAt :=
    fun id record recorded isReserved => (ok.clocks.owners id record recorded isReserved).1.1
  have clock : ∀ cli ∈ jsm.clients.entries, nowSecs ≤ jsm.tickAtFor cli := by
    intro cli registered
    obtain ⟨early, onHeap⟩ := ok.clocks.clock cli registered
    by_cases ever : jsm.tickAtFor cli < maxTime
    · exact Int64.le_trans (finished cli (onHeap ever)) early
    · exact Int64.le_trans (le_maxTime nowSecs) (Int64.not_lt.mp ever)
  have unexpired : ∀ cli ∈ jsm.clients.entries, ∀ id record, jsm.recordOf id = some record →
      record.state = .reserved → record.reservedBy = cli.cliID → nowSecs ≤ record.expiresAt ∧
        ((jsm.clientAt cli).isWaitingForResv = true → nowSecs ≤ record.expiresAt - 1) := by
    intro cli registered id record recorded isReserved isOwner
    obtain ⟨early, earlier⟩ := ok.containers.jobs.tickAtFor_le reservedExact above recorded
      ((Job.home_eq_reserved_iff _ _).mpr ⟨isReserved, isOwner⟩)
    exact ⟨Int64.le_trans (clock cli registered) early,
      fun waiting => Int64.le_trans (clock cli registered) (earlier waiting)⟩
  refine ⟨fun id record recorded isDelayed => ?_, fun id record recorded isReserved => ?_,
    fun cli registered waiting => ?_, fun cli registered waiting id record recorded isReserved
      isOwner => ?_⟩
  · exact Int64.not_lt.mpr (delayed id record recorded isDelayed)
  · obtain ⟨_, cli, registered, isOwner⟩ := ok.clocks.owners id record recorded isReserved
    exact Int64.not_lt.mpr
      (unexpired cli registered id record recorded isReserved isOwner.symm).1
  · exact Int64.not_lt.mpr
      (Int64.le_trans (clock cli registered) (JSM.tickAtFor_le_deadline waiting))
  · have early := (unexpired cli registered id record recorded isReserved isOwner).2 waiting
    have soon := Int64.toInt_sub_one (above id record recorded isReserved)
    rw [Int64.le_iff_toInt_le] at early ⊢
    omega

end Tick

/-- In every reachable state a tick returns and leaves nothing overdue. -/
theorem nothingOverdue_after_tick {jsm : JSM} (reachable : Reachable Timely jsm)
    (nowSecs : Int64) (walk : TubeWalk) (timely : Timely jsm (.tick nowSecs walk)) :
    ∃ resvs after, (Op.tick nowSecs walk).Steps jsm (.ok (.reservations resvs)) after ∧
      NothingOverdue nowSecs after := by
  have ok := timersOk_of_reachable reachable
  obtain ⟨resvs, after, returns, matched, processed, answers, woken, served, done, rfl⟩ :=
    ((ends_tick ok.containers.jobs ok.containers.clients admissible_timely.readyExact
      admissible_timely.delayedExact walk).mono (fun _ _ holds => holds) (fun _ _ => False.elim)
      fun inexact => inexact (by simp [Kinds.ownTouches])).returns
  have ran : (Op.tick nowSecs walk).run jsm =
      .ok (.reservations (matchedReservations jsm matched ++ answers)) after := by
    rw [Op.run, Prog.map_apply, returns]
    rfl
  refine ⟨_, after, ⟨by rw [ran]; rfl, by rw [ran]; rfl⟩, ?_⟩
  exact nothingOverdue_of_finished (ok.of_effect timely (.ticked done))
    (fun id record recorded isDelayed => done.delayed_not_overdue ok.delay recorded isDelayed)
    done.finished

/-- A run with a reserved job, a delayed job and a waiting client. -/
def allTimers : List Op :=
  [.put 10 5 0 60 0 none [1], .appendReservation [7] [1] [[1]] 10 20, .touch 12 1 [7],
    .put 11 4 30 60 0 none [1], .appendReservation [8] [2] [[2]] 11 40]

theorem nothingOverdue_allTimers :
    (((stateAfter allTimers).recordOf 1).map (·.state), ((stateAfter allTimers).recordOf 2).map
      (·.state)) = (some .reserved, some .delayed) ∧
      ∃ resvs after, (Op.tick 50 .inOrder).Steps (stateAfter allTimers)
        (.ok (.reservations resvs)) after ∧ NothingOverdue 50 after := by
  refine ⟨by decide +kernel, nothingOverdue_after_tick (reachable_of_admitted allTimers ?_) 50
    .inOrder ?_⟩
  · decide +kernel
  · decide +kernel

/-- The state and the expiry of a job after a tick. -/
def leaseAfterTick (nowSecs : Int64) (id : JobID) (jsm : JSM) : Option (JobState × Int64) :=
  ((Op.tick nowSecs .inOrder).run jsm).state?.bind fun after =>
    (after.recordOf id).map fun record => (record.state, record.expiresAt)

/-- A run in which somebody who names no client touches a job. -/
def namelessTouch : List Op :=
  [.put 10 5 0 60 0 none [1], .appendReservation [7] [1] [[1]] 10 20, .touch 11 1 []]

/-- A run in which a job expires at the first of all clocks, while its client
waits for another one. -/
def firstClock : List Op :=
  [.put 0 5 0 Int64.minValue 0 none [1], .appendReservation [7] [1] [[1]] 0 20,
    .appendReservation [7] [2] [[2]] 0 20]

/-- A touch that names no client files the job under no client, where no tick
finds it.  A second before the first of all clocks is the last one, so a job
that expires at the first clock keeps its client waiting. -/
theorem overdue_after_tick :
    (Reachable (fun jsm op => op.Proper ∧ ExpiresWithin (· < maxTime) jsm op)
        (stateAfter namelessTouch) ∧
      leaseAfterTick 100 1 (stateAfter namelessTouch) = some (.reserved, 71)) ∧
    Reachable (fun jsm op => op.Proper ∧ ExpiresWithin (· < maxTime) jsm op)
        (stateAfter firstClock) ∧
      leaseAfterTick 10 1 (stateAfter firstClock) = some (.reserved, Int64.minValue) := by
  refine ⟨⟨reachable_of_admitted namelessTouch ?_, ?_⟩, reachable_of_admitted firstClock ?_, ?_⟩
  all_goals decide +kernel

end Coolbeans
