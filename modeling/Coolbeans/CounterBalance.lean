import Coolbeans.JobIdentity
import Coolbeans.JobLifeCycle

/-!
# The counters of a job

A job counts how often it was reserved, how its reservations ended, and how often it was
kicked.  `fromReservedToReady` takes the flag `updatePri` for a sign that a client has released
the job, and counts a timeout without it; a release with a delay and a bury count elsewhere.
The counters still balance: each reservation but the present one has ended in one way, and each
bury but the present one with a kick.
-/

namespace Coolbeans

open FiniteMap StatefulProgram

/-- The counters of a job balance, modulo the 2 ^ 32 values that they have. -/
structure Job.Balanced (job : Job) : Prop where
  reserves : job.reserveCount = job.timeoutCount + job.releaseCount + job.buryCount +
    if job.state = .reserved then 1 else 0
  buries : job.buryCount = job.kickCount + if job.state = .buried then 1 else 0

/-- The counters of every indexed job balance. -/
def JSM.Balanced (jsm : JSM) : Prop :=
  ∀ id record, jsm.recordOf id = some record → record.Balanced

/-! ## One move -/

section Moves

variable {job : Job}

theorem Job.balanced_initial (id : JobID) (nowSeconds : Int64) (priority : UInt32)
    (delay ttr bodySize : Int64) (body : Option Bytes) (tubeName : TubeName) {state : JobState}
    (reaches : state = .ready ∨ state = .delayed) :
    ((Job.initial id nowSeconds priority delay ttr bodySize body tubeName).updateState
      state).Balanced := by
  rcases reaches with rfl | rfl <;> constructor <;> simp [Job.initial]

theorem Job.Balanced.woken (balanced : job.Balanced) (leaves : job.state = .delayed) :
    (job.updateState .ready).Balanced := by
  obtain ⟨reserves, buries⟩ := balanced
  constructor
  · simpa [leaves] using reserves
  · simpa [leaves] using buries

theorem Job.Balanced.reservedFor (balanced : job.Balanced) (leaves : job.state = .ready)
    (nowSecs : Int64) (clientID : ClientID) : (job.reservedFor nowSecs clientID).Balanced := by
  obtain ⟨reserves, buries⟩ := balanced
  rw [leaves] at reserves buries
  constructor
  · simpa [Job.reservedFor] using reserves
  · simpa [Job.reservedFor] using buries

theorem Job.Balanced.released (balanced : job.Balanced) (leaves : job.state = .reserved)
    (pri : UInt32) (updatePri : Bool) : (job.released pri updatePri).Balanced := by
  obtain ⟨reserves, buries⟩ := balanced
  rw [leaves] at reserves buries
  constructor
  · -- one of the counters of timeouts and of releases takes over from the reservation
    cases updatePri <;> simp [Job.released] <;> grind
  · cases updatePri <;> simpa [Job.released] using buries

theorem Job.Balanced.releasedWithDelay (balanced : job.Balanced) (leaves : job.state = .reserved)
    (nowSeconds : Int64) (pri : UInt32) (delay : Int64) :
    (job.releasedWithDelay nowSeconds pri delay).Balanced := by
  obtain ⟨reserves, buries⟩ := balanced
  rw [leaves] at reserves buries
  constructor
  · simp [Job.releasedWithDelay]
    grind
  · simpa [Job.releasedWithDelay] using buries

theorem Job.Balanced.buriedWith (balanced : job.Balanced) (leaves : job.state = .reserved)
    (nowSeconds : Int64) (priority : UInt32) :
    (job.buriedWith nowSeconds priority).Balanced := by
  obtain ⟨reserves, buries⟩ := balanced
  rw [leaves] at reserves buries
  constructor
  · simp [Job.buriedWith]
    grind
  · simpa [Job.buriedWith] using buries

theorem Job.Balanced.kicked (balanced : job.Balanced) (leaves : job.state = .buried) :
    job.kicked.Balanced := by
  obtain ⟨reserves, buries⟩ := balanced
  rw [leaves] at reserves buries
  constructor
  · simpa [Job.kicked] using reserves
  · simpa [Job.kicked] using buries

theorem Job.Balanced.restored (balanced : job.Balanced) : job.restored.Balanced :=
  ⟨balanced.reserves, balanced.buries⟩

theorem Move.balanced {op : Op} {jsm : JSM} {id : JobID} {was : Option Job} {next : Job}
    (move : Move op jsm id was (some next)) (balanced : ∀ record ∈ was, record.Balanced) :
    next.Balanced := by
  cases move with
  | @entered _ _ delay _ _ _ _ puts =>
      apply Job.balanced_initial
      by_cases isDelayed : 0 < delay <;> simp [isDelayed]
  | woken _ _ leaves => exact (balanced _ rfl).woken leaves
  | matched _ leaves => exact (balanced _ rfl).reservedFor leaves _ _
  | expired _ _ _ _ owned => exact (balanced _ rfl).released owned.1 _ _
  | released _ owned => exact (balanced _ rfl).released owned.1 _ _
  | releasedNow _ _ owned => exact (balanced _ rfl).released owned.1 _ _
  | releasedLater _ _ owned => exact (balanced _ rfl).releasedWithDelay owned.1 _ _ _
  | touched _ _ => exact ⟨(balanced _ rfl).reserves, (balanced _ rfl).buries⟩
  | buried _ owned => exact (balanced _ rfl).buriedWith owned.1 _ _
  | kicked _ leaves => exact (balanced _ rfl).kicked leaves
  | kickedFirst _ _ _ leaves => exact (balanced _ rfl).kicked leaves

end Moves

/-! ## Histories -/

section Histories

variable {before after : JSM}

theorem JSM.Balanced.step {op : Op} {answer : Answer} (balanced : before.Balanced)
    (jobs : JobsOk .anyRun before) (steps : op.Steps before answer after) : after.Balanced := by
  intro id
  refine recordOf_of_moves (fun now => ∀ record, now = some record → record.Balanced)
    (along_of_steps jobs steps).moves (balanced id) ?_
  rintro jsm was _ wasBalanced move record rfl
  exact move.balanced wasBalanced

/-- Along every history of operations and restored snapshots, each job was reserved as often as
its reservations timed out, were released and were buried, and once more while it is reserved;
and it was buried as often as it was kicked, and once more while it is buried.  A restore that
fails leaves its target as it is. -/
theorem counters_balanced {admits : JSM → Op → Prop} {restorable : JSM → Prop}
    {events : List (Op × Answer)} {jsm : JSM} (lineage : Lineage admits restorable events jsm) :
    ∀ id record, jsm.recordOf id = some record →
      record.reserveCount = record.timeoutCount + record.releaseCount + record.buryCount +
        (if record.state = .reserved then 1 else 0) ∧
      record.buryCount = record.kickCount + (if record.state = .buried then 1 else 0) := by
  have kept : JobsOk .anyRun jsm ∧ jsm.Balanced := by
    induction lineage with
    | new => exact ⟨jobsOk_newJSM .anyRun, fun id record recorded => by cases recorded⟩
    | step lineage _ steps induction =>
        obtain ⟨jobs, balanced⟩ := induction
        exact ⟨(along_of_steps jobs steps).jobs, balanced.step jobs steps⟩
    | @restore _ origin target after walk lineage _ restores induction =>
        obtain ⟨jobs, balanced⟩ := induction
        have restored := ends_restoreSnapshotTo jobs walk target
        rw [restores] at restored
        refine ⟨restored.1.of_all, fun id record recorded => ?_⟩
        rw [restored.2] at recorded
        obtain ⟨was, wasRecorded, rfl⟩ := Option.map_eq_some_iff.mp recorded
        exact (balanced id was wasRecorded).restored
  intro id record recorded
  exact ⟨(kept.2 id record recorded).reserves, (kept.2 id record recorded).buries⟩

end Histories

/-- A reservation times out, and another ends with a bury and a kick. -/
def kickedJob : List Op :=
  [.put 0 1 0 10 0 none [1], .appendReservation [7] [1] [[1]] 0 20, .tick 11 .inOrder,
    .appendReservation [7] [2] [[1]] 12 20, .bury 13 1 1 [7], .kick 1]

/-- The job is reserved a third time after a restore. -/
def reservedAgain : JSM :=
  let restored := restoredFrom (stateAfter kickedJob) newJSM
  (replay [.appendReservation [8] [3] [[1]] 14 20] restored).getD restored

theorem counters_balanced_reservedAgain :
    ∃ events record, Lineage (fun _ _ => True) (fun _ => True) events reservedAgain ∧
      reservedAgain.recordOf 1 = some record ∧ record.state = .reserved ∧
      record.reserveCount = 3 ∧ record.timeoutCount = 1 ∧ record.kickCount = 1 ∧
      record.reserveCount = record.timeoutCount + record.releaseCount + record.buryCount +
        (if record.state = .reserved then 1 else 0) := by
  have kicked : Lineage (fun _ _ => True) (fun _ => True) _ (stateAfter kickedJob) :=
    Lineage.new.replay kickedJob (admitted_of_forall (fun _ _ _ => trivial) _) (by decide +kernel)
  have restored := kicked.restoredFrom newJSM trivial (by decide +kernel)
  have lineage : Lineage (fun _ _ => True) (fun _ => True) _ reservedAgain :=
    restored.replay [.appendReservation [8] [3] [[1]] 14 20]
      (admitted_of_forall (fun _ _ _ => trivial) _) (by decide +kernel)
  have counts : (reservedAgain.recordOf 1).map (fun record => (record.state, record.reserveCount,
      record.timeoutCount, record.kickCount)) = some (.reserved, 3, 1, 1) := by
    decide +kernel
  obtain ⟨record, recorded, isRecord⟩ := Option.map_eq_some_iff.mp counts
  simp only [Prod.mk.injEq] at isRecord
  obtain ⟨isReserved, reserves, timeouts, kicks⟩ := isRecord
  exact ⟨_, record, lineage, recorded, isReserved, reserves, timeouts, kicks,
    (counters_balanced lineage 1 record recorded).1⟩

end Coolbeans
