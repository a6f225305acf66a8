import Coolbeans.DelayTimer
import Coolbeans.SnapshotRestore

/-!
# What a snapshot carries

Jobs come through a snapshot unchanged and into exact containers.  The tubes
that a client waits for do not come through, and neither does the delay timer:
a restored state machine goes on with the timer it had before.
-/

namespace Coolbeans

open FiniteMap PositionHeap StatefulProgram

/-- Accepted reservation requests have a deadline before the end of time. -/
def BoundedRequests (_ : JSM) (op : Op) : Prop :=
  op.DeadlineBounded

instance (jsm : JSM) (op : Op) : Decidable (BoundedRequests jsm op) :=
  inferInstanceAs (Decidable op.DeadlineBounded)

theorem admissible_boundedRequests : Admissible .anyRun BoundedRequests :=
  admissible_anyRun fun _ _ bounded => bounded

/-! ## Jobs -/

/-- The time to run and the size of the body are 32-bit numbers. -/
structure Job.Fits (job : Job) : Prop where
  ttr : -2 ^ 31 ≤ job.ttr.toInt ∧ job.ttr.toInt < 2 ^ 31
  bodySize : -2 ^ 31 ≤ job.bodySize.toInt ∧ job.bodySize.toInt < 2 ^ 31

theorem Job.restored_of_fits {job : Job} (fits : job.Fits) :
    job.restored = { job with impl := .wrapJob } := by
  simp only [Job.restored, toInt64_toInt32_of_range fits.ttr.1 fits.ttr.2,
    toInt64_toInt32_of_range fits.bodySize.1 fits.bodySize.2]

/-- Jobs come through a snapshot unchanged, into exact containers. -/
theorem jobs_survive_snapshot {origin : JSM} (reachable : Reachable BoundedRequests origin)
    (fits : ∀ id record, origin.recordOf id = some record → record.Fits)
    (small : origin.clientHeap.length ≤ 2 ^ 31) (walk : JobWalk) (target : JSM) :
    ∃ after, restoreSnapshotTo (origin.newSnapshotFrom walk) target = .ok () after ∧
      (∀ id, after.recordOf id =
        (origin.recordOf id).map fun job => { job with impl := .wrapJob }) ∧
      (∀ id record, after.recordOf id = some record → ∃ key, record.home = some key) ∧
      HeapsExact (fun _ => True) after := by
  have ok := admissible_boundedRequests.reachable reachable
  obtain ⟨after, restores, restored⟩ := restoreSnapshotTo_returns ok small walk target
  refine ⟨after, restores, fun id => ?_, fun id record recorded => ?_, ?_⟩
  · rw [restored.recordOf]
    apply Option.map_congr
    intro record recorded
    exact Job.restored_of_fits (fits id record recorded)
  · exact restored.jobs.exists_home recorded
  · exact heapsExact_of_jobsOk restored.jobs fun _ _ => trivial

/-- A run with jobs in all four states. -/
def fourStates : List Op :=
  buryOne ++ [.put 12 5 0 60 0 none [2], .appendReservation [8] [2] [[2]] 12 20,
    .put 12 5 30 60 0 none [2], .put 12 5 0 60 0 none [2]]

theorem jobs_survive_fourStates :
    (stateAfter fourStates).jobs.keys.length = 4 ∧
      ∃ after, restoreSnapshotTo ((stateAfter fourStates).newSnapshotFrom .inOrder)
          (stateAfter buryOne) = .ok () after ∧
        HeapsExact (fun _ => True) after := by
  have bounded : ∀ op ∈ fourStates, op.DeadlineBounded := by decide
  have fits : ∀ id record, (stateAfter fourStates).recordOf id = some record → record.Fits := by
    intro id record recorded
    have small := JSM.holds_of_recordOf (fun record => record.ttr = 60 ∧ record.bodySize = 0)
      (by decide +kernel) recorded
    rw [decide_eq_true_eq] at small
    obtain ⟨ttr, bodySize⟩ := small
    constructor
    · rw [ttr]
      decide
    · rw [bodySize]
      decide
  refine ⟨by decide +kernel, ?_⟩
  obtain ⟨after, restores, _, _, isExact⟩ := jobs_survive_snapshot
    (reachable_stateAfter _ fun op member _ => bounded op member) fits (by decide +kernel)
    .inOrder (stateAfter buryOne)
  exact ⟨after, restores, isExact⟩

/-- A run in which a client whose request never ends is forgotten and then
served: it is on the client heap, but not registered. -/
def endlessRequest : List Op :=
  [.put 10 5 0 60 0 none [1], .appendReservation [7] [1] [[1]] 10 20, .delete 1 [7],
    .appendReservation [7] [2] [[1]] (Int64.maxValue - 86400) Int64.maxValue,
    .put 100 5 0 60 0 none [1], .tick 101 .inOrder, .appendReservation [8] [3] [[2]] 101 300]

/-- A client heap with a member that is not registered cannot be restored. -/
theorem restore_panics_endlessRequest :
    ∃ origin, Reachable (fun _ _ => True) origin ∧
      origin.clientHeap.map (·.cliID) = [[7], [8]] ∧
      origin.snapshotClients.map (·.cliID) = [[8]] ∧
      (∀ id ∈ origin.jobs.keys, ∀ record ∈ origin.recordOf id,
        record.ttr = 60 ∧ record.bodySize = 0) ∧
      (restoreSnapshotTo (origin.newSnapshotFrom .inOrder) newJSM).state?.isNone := by
  refine ⟨stateAfter endlessRequest, reachable_stateAfter _ (by simp), by decide +kernel,
    by decide +kernel, fun id _ record recorded => ?_, by decide +kernel⟩
  have small := JSM.holds_of_recordOf (fun record => record.ttr = 60 ∧ record.bodySize = 0)
    (by decide +kernel) recorded
  rw [decide_eq_true_eq] at small
  exact small

/-! ## Waiting clients -/

/-- The client waits for a reservation. -/
def JSM.IsWaiting (jsm : JSM) (clientID : ClientID) : Prop :=
  ∃ cli ∈ jsm.clients.entries, cli.cliID = clientID ∧
    (jsm.clientAt cli).isWaitingForResv = true

/-- The client stands in the wait queue of the tube. -/
def JSM.WaitsFor (jsm : JSM) (clientID : ClientID) (tubeName : TubeName) : Prop :=
  ∃ cli ∈ (jsm.waitingAt tubeName).entries, cli.cliID = clientID

/-- The waiting clients of one state wait for the same tubes in another. -/
def WaitersKept (origin after : JSM) : Prop :=
  ∀ clientID, origin.IsWaiting clientID → ∀ tubeName,
    after.WaitsFor clientID tubeName ↔ origin.WaitsFor clientID tubeName

/-- A snapshot keeps the waiting clients in their queues only if there is no
queue to keep. -/
theorem waitersKept_iff {origin : JSM} (reachable : Reachable BoundedRequests origin)
    (small : origin.clientHeap.length ≤ 2 ^ 31) (walk : JobWalk) (target : JSM) :
    ∃ after, restoreSnapshotTo (origin.newSnapshotFrom walk) target = .ok () after ∧
      (WaitersKept origin after ↔ ∀ tubeName, (origin.waitingAt tubeName).entries = []) := by
  have ok := admissible_boundedRequests.reachable reachable
  obtain ⟨after, restores, restored⟩ := restoreSnapshotTo_returns ok small walk target
  have lost : ∀ clientID tubeName, ¬ after.WaitsFor clientID tubeName := by
    intro clientID tubeName waits
    obtain ⟨cli, member, _⟩ := waits
    rw [restored.queues] at member
    cases member
  refine ⟨after, restores, ?_, ?_⟩
  · intro kept tubeName
    rw [List.eq_nil_iff_forall_not_mem]
    intro cli member
    obtain ⟨registered, waiting, _⟩ := ok.clients.waiting_of_queued member
    apply lost cli.cliID tubeName
    rw [kept cli.cliID ⟨cli, registered, rfl, waiting⟩]
    exact ⟨cli, member, rfl⟩
  · intro empty clientID _ tubeName
    refine iff_of_false (lost clientID tubeName) fun waits => ?_
    obtain ⟨cli, member, _⟩ := waits
    rw [empty] at member
    cases member

/-- A run in which a client waits for no tube. -/
def waitsForNothing : List Op :=
  [.put 10 5 0 60 0 none [1], .appendReservation [7] [1] [] 10 20]

theorem waitersKept_waitsForNothing :
    (stateAfter waitsForNothing).clients.entries.map (fun cli =>
        (cli.cliID, ((stateAfter waitsForNothing).clientAt cli).isWaitingForResv)) =
      [([7], true)] ∧
      ∃ after, restoreSnapshotTo ((stateAfter waitsForNothing).newSnapshotFrom .inOrder)
          newJSM = .ok () after ∧ WaitersKept (stateAfter waitsForNothing) after := by
  have bounded : ∀ op ∈ waitsForNothing, op.DeadlineBounded := by decide
  have noQueue : ∀ tubeName ∈ (stateAfter waitsForNothing).tubes.keys,
      ((stateAfter waitsForNothing).waitingAt tubeName).entries = [] := by decide +kernel
  refine ⟨by decide +kernel, ?_⟩
  obtain ⟨after, restores, kept⟩ := waitersKept_iff (reachable_stateAfter waitsForNothing
    fun op member _ => bounded op member) (by decide +kernel) .inOrder newJSM
  refine ⟨after, restores, kept.mpr fun tubeName => ?_⟩
  by_contra someone
  obtain ⟨cli, member⟩ := List.exists_mem_of_ne_nil _ someone
  exact someone (noQueue tubeName ((JSM.mem_keys_iff_hasTube _ _).mpr
    (JSM.hasTube_of_waiting _ _ member)))

/-- A run in which a client waits for a tube. -/
def oneWaiter : List Op :=
  [.appendReservation [7] [1] [[1]] 10 90]

/-- A client that waits in the original is in no queue after the restore, and a
job that it waits for does not reach it any more. -/
theorem waiters_lost :
    ∃ origin after, Reachable BoundedRequests origin ∧
      restoreSnapshotTo (origin.newSnapshotFrom .inOrder) newJSM = .ok () after ∧
      (origin.waitingAt [1]).entries.map (fun cli =>
        (cli.cliID, (origin.clientAt cli).isWaitingForResv)) = [([7], true)] ∧
      (after.waitingAt [1]).entries = [] ∧
      (history [.put 11 5 0 60 0 none [1], .tick 12 .inOrder] after).map Prod.snd =
        [.ok (.jobID 1), .ok (.reservations [])] := by
  have reachable : Reachable BoundedRequests (stateAfter oneWaiter) :=
    reachable_of_admitted _ (by decide +kernel)
  have later : (restoreSnapshotTo ((stateAfter oneWaiter).newSnapshotFrom .inOrder)
      newJSM).state?.map (fun after =>
        (history [.put 11 5 0 60 0 none [1], .tick 12 .inOrder] after).map Prod.snd) =
      some [.ok (.jobID 1), .ok (.reservations [])] := by decide +kernel
  obtain ⟨after, restores, restored⟩ := restoreSnapshotTo_returns
    (admissible_boundedRequests.reachable reachable) (by decide +kernel) .inOrder newJSM
  rw [restores] at later
  exact ⟨_, after, reachable, restores, by decide +kernel, restored.queues [1],
    Option.some.inj later⟩

/-! ## Delayed jobs -/

/-- After every tick of every later run no delayed job is overdue. -/
def DelaysEnd (jsm : JSM) : Prop :=
  ∀ events last, Run BoundedRequests jsm events last → ∀ nowSecs walk answer after,
    (Op.tick nowSecs walk).Steps last answer after → ∀ id record,
      after.recordOf id = some record → record.state = .delayed → nowSecs ≤ record.readyAt

theorem delaysEnd_of_delayTimerOk {jsm : JSM} (ok : ContainersOk .anyRun jsm)
    (timer : DelayTimerOk jsm) : DelaysEnd jsm := by
  intro events last run nowSecs walk answer after steps id record recorded isDelayed
  have kept : ContainersOk .anyRun last ∧ DelayTimerOk last := by
    refine @Run.invariant _ (fun jsm => ContainersOk .anyRun jsm ∧ DelayTimerOk jsm) _ _ _ run
      ?_ ⟨ok, timer⟩
    intro before op answer next holds admitted steps
    have effect := admissible_boundedRequests.effect holds.1 admitted steps
    exact ⟨effect.containersOk holds.1, effect.delayTimerOk holds.2⟩
  obtain ⟨_, _, _, _, _, done⟩ := tickDone_of_steps kept.1 admissible_boundedRequests.readyExact
    admissible_boundedRequests.delayedExact steps
  exact done.delayed_not_overdue kept.2 recorded isDelayed

/-- A tick that comes before the delay timer leaves the delayed jobs alone. -/
theorem TickDone.delayed_kept {kinds : Kinds} {nowSecs : Int64} {walk : TubeWalk}
    {matched : List (CliPtr × Job)} {processed : List CliPtr} {answers : List Reservation}
    {before woken served after : JSM}
    (done : TickDone kinds nowSecs walk matched processed answers before woken served after)
    (early : nowSecs ≤ before.nextDelayTickAt) {id : JobID} {record : Job}
    (recorded : before.recordOf id = some record) (isDelayed : record.state = .delayed) :
    after.recordOf id = some record := by
  have inWoken : woken.recordOf id = some record := by
    rw [done.delay.records, recorded, Option.map_some, if_neg (Int64.not_lt.mpr early)]
  have inServed : served.recordOf id = some record := by
    rw [done.ready.unserved id, inWoken]
    intro isServed
    obtain ⟨pair, inside, rfl⟩ := List.mem_map.mp isServed
    obtain ⟨wasRecorded, wasReady⟩ := done.ready.wasReady pair inside
    rw [inWoken] at wasRecorded
    cases wasRecorded
    rw [isDelayed] at wasReady
    cases wasReady
  rcases done.clients.released id with same | ⟨old, wasRecorded, isReserved, _⟩
  · rw [same, inServed]
  · rw [inServed] at wasRecorded
    cases wasRecorded
    rw [isDelayed] at isReserved
    cases isReserved

/-- The delayed jobs of a restored snapshot end their delay in time exactly if
the timer of the target was early enough for them. -/
theorem delaysEnd_iff {origin target after : JSM} (reachable : Reachable BoundedRequests origin)
    {walk : JobWalk}
    (restores : restoreSnapshotTo (origin.newSnapshotFrom walk) target = .ok () after) :
    DelaysEnd after ↔ ∀ id record, origin.recordOf id = some record →
      record.state = .delayed → target.nextDelayTickAt ≤ record.readyAt := by
  have restored := Restored.of_restores (admissible_boundedRequests.reachable reachable) restores
  constructor
  · intro ends id record recorded isDelayed
    by_contra late
    have late := Int64.not_le.mp late
    have restoredRecord : after.recordOf id = some record.restored := by
      rw [restored.recordOf, recorded]
      rfl
    -- one second after the job is due, the timer has not passed
    have next : (record.readyAt + 1).toInt = record.readyAt.toInt + 1 := by
      rw [Int64.lt_iff_toInt_lt] at late
      have upper := target.nextDelayTickAt.toInt_lt
      have lower := record.readyAt.le_toInt
      rw [Int64.toInt_add, show (1 : Int64).toInt = 1 from rfl,
        Int.bmod_eq_of_le (by omega) (by omega)]
    have early : record.readyAt + 1 ≤ after.nextDelayTickAt := by
      rw [restored.nextDelayTickAt, Int64.le_iff_toInt_le, next]
      rw [Int64.lt_iff_toInt_lt] at late
      omega
    obtain ⟨resvs, last, returns, _, _, _, _, _, done, _⟩ :=
      ((@ends_tick .all (record.readyAt + 1) after restored.jobs restored.clients trivial trivial
        .inOrder).mono (fun _ _ holds => holds) (fun _ _ => False.elim)
        fun inexact => inexact trivial).returns
    have steps : (Op.tick (record.readyAt + 1) .inOrder).Steps after
        (.ok (.reservations resvs)) last := by
      simp only [Op.Steps, Op.run, Prog.map_apply, returns]
      exact ⟨rfl, rfl⟩
    have overdue := ends [] after (.nil after) _ _ _ _ steps id record.restored
      (done.delayed_kept early restoredRecord isDelayed) isDelayed
    rw [Int64.le_iff_toInt_le, next] at overdue
    change record.readyAt.toInt + 1 ≤ record.readyAt.toInt at overdue
    omega
  · intro early
    refine delaysEnd_of_delayTimerOk ⟨restored.jobs.of_all, restored.clients⟩ ?_
    intro id record recorded isDelayed
    rw [restored.recordOf] at recorded
    obtain ⟨old, wasRecorded, rfl⟩ := Option.map_eq_some_iff.mp recorded
    rw [restored.nextDelayTickAt]
    exact early id old wasRecorded isDelayed

/-- A run that leaves a delayed job. -/
def oneDelayed : List Op :=
  [.put 10 5 30 60 0 none [1]]

/-- The delay ends in time in a target whose own delayed job is due earlier. -/
theorem delaysEnd_oneDelayed :
    ∃ after, restoreSnapshotTo ((stateAfter oneDelayed).newSnapshotFrom .inOrder)
      (stateAfter [.put 10 5 20 60 0 none [2]]) = .ok () after ∧ DelaysEnd after := by
  have reachable : Reachable BoundedRequests (stateAfter oneDelayed) :=
    reachable_of_admitted _ (by decide +kernel)
  obtain ⟨after, restores, _⟩ := restoreSnapshotTo_returns
    (admissible_boundedRequests.reachable reachable) (by decide +kernel) .inOrder
    (stateAfter [.put 10 5 20 60 0 none [2]])
  refine ⟨after, restores, (delaysEnd_iff reachable restores).mpr ?_⟩
  intro id record recorded _
  have early := JSM.holds_of_recordOf (fun record =>
    (stateAfter [.put 10 5 20 60 0 none [2]]).nextDelayTickAt ≤ record.readyAt)
    (by decide +kernel) recorded
  rw [decide_eq_true_eq] at early
  exact early

/-- A new state machine has no delay timer, and a restore does not set it: the
job stays delayed long after it is due. -/
theorem delay_never_ends :
    ∃ origin, Reachable BoundedRequests origin ∧
      (restoreSnapshotTo (origin.newSnapshotFrom .inOrder) newJSM).reply? = some (.ok ()) ∧
      ((restoreSnapshotTo (origin.newSnapshotFrom .inOrder) newJSM).state?.bind
        (replay [.tick 100 .inOrder])).map (fun after =>
          (after.recordOf 1).map fun record => (record.state, record.readyAt)) =
        some (some (.delayed, 40)) := by
  refine ⟨stateAfter oneDelayed, reachable_of_admitted _ (by decide +kernel), ?_⟩
  decide +kernel

end Coolbeans
