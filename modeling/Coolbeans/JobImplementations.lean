import Coolbeans.SnapshotFidelity
import Mathlib.Data.List.Induction

/-!
# The two implementations of a job

A `localJob` keeps its fields itself, a `wrapJob` keeps them in the protobuf record that it
was made of.  The methods of the job interface are written for both.  Here the methods of
`wrapJob` stand on their own, over its record, and are compared with those of `localJob`.
They differ in one place: a `localJob` forgets when it was buried as soon as its state is
updated, a `wrapJob` does not.
-/

namespace Coolbeans

/-- The methods of the job interface that write. -/
inductive JobMutator where
  | updatePriority (newPriority : UInt32)
  | updateDelay (newDelay : Int64)
  | updateReadyAt (nowSeconds : Int64)
  | updateState (newState : JobState)
  | updateReservation (nowSeconds : Int64)
  | updateReservedBy (clientID : ClientID)
  | updateBuriedAt (nowSeconds : Int64)
  | resetBuriedAt
  | incReserveCount
  | incTimeoutCount
  | incReleaseCount
  | incBuryCount
  | incKickCount
  deriving DecidableEq, Repr

/-- What the methods of the job interface that read return. -/
structure JobGetters where
  id : JobID
  priority : UInt32
  delay : Int64
  ttr : Int64
  bodySize : Int64
  body : Option Bytes
  tubeName : TubeName
  createdAt : Int64
  readyAt : Int64
  state : JobState
  expiresAt : Int64
  reservedBy : ClientID
  buriedAt : Int64
  reserveCount : UInt32
  timeoutCount : UInt32
  releaseCount : UInt32
  buryCount : UInt32
  kickCount : UInt32
  deriving DecidableEq, Repr

/-! ## The methods of a `localJob` -/

namespace Job

def mutate (job : Job) : JobMutator → Job
  | .updatePriority newPriority => job.updatePriority newPriority
  | .updateDelay newDelay => job.updateDelay newDelay
  | .updateReadyAt nowSeconds => job.updateReadyAt nowSeconds
  | .updateState newState => job.updateState newState
  | .updateReservation nowSeconds => job.updateReservation nowSeconds
  | .updateReservedBy clientID => job.updateReservedBy clientID
  | .updateBuriedAt nowSeconds => job.updateBuriedAt nowSeconds
  | .resetBuriedAt => job.resetBuriedAt
  | .incReserveCount => job.incReserveCount
  | .incTimeoutCount => job.incTimeoutCount
  | .incReleaseCount => job.incReleaseCount
  | .incBuryCount => job.incBuryCount
  | .incKickCount => job.incKickCount

def getters (job : Job) : JobGetters where
  id := job.id
  priority := job.priority
  delay := job.delay
  ttr := job.ttr
  bodySize := job.bodySize
  body := job.body
  tubeName := job.tubeName
  createdAt := job.createdAt
  readyAt := job.readyAt
  state := job.state
  expiresAt := job.expiresAt
  reservedBy := job.reservedBy
  buriedAt := job.buriedAt
  reserveCount := job.reserveCount
  timeoutCount := job.timeoutCount
  releaseCount := job.releaseCount
  buryCount := job.buryCount
  kickCount := job.kickCount

end Job

/-! ## The methods of a `wrapJob`, over its record -/

namespace JobProto

def updatePriority (newPriority : UInt32) (jp : JobProto) : JobProto :=
  { jp with priority := newPriority }

def updateDelay (newDelay : Int64) (jp : JobProto) : JobProto :=
  { jp with delay := newDelay }

def updateReadyAt (nowSeconds : Int64) (jp : JobProto) : JobProto :=
  { jp with readyAt := nowSeconds + jp.delay }

def updateState (newState : JobState) (jp : JobProto) : JobProto :=
  { jp with state := newState }

def updateReservation (nowSeconds : Int64) (jp : JobProto) : JobProto :=
  { jp with expiresAt := nowSeconds + jp.ttr.toInt64 }

def updateReservedBy (clientID : ClientID) (jp : JobProto) : JobProto :=
  { jp with reservedBy := clientID }

def updateBuriedAt (nowSeconds : Int64) (jp : JobProto) : JobProto :=
  { jp with buriedAt := nowSeconds }

def resetBuriedAt (jp : JobProto) : JobProto :=
  { jp with buriedAt := 0 }

def incReserveCount (jp : JobProto) : JobProto :=
  { jp with reserveCount := jp.reserveCount + 1 }

def incTimeoutCount (jp : JobProto) : JobProto :=
  { jp with timeoutCount := jp.timeoutCount + 1 }

def incReleaseCount (jp : JobProto) : JobProto :=
  { jp with releaseCount := jp.releaseCount + 1 }

def incBuryCount (jp : JobProto) : JobProto :=
  { jp with buryCount := jp.buryCount + 1 }

def incKickCount (jp : JobProto) : JobProto :=
  { jp with kickCount := jp.kickCount + 1 }

def mutate (jp : JobProto) : JobMutator → JobProto
  | .updatePriority newPriority => jp.updatePriority newPriority
  | .updateDelay newDelay => jp.updateDelay newDelay
  | .updateReadyAt nowSeconds => jp.updateReadyAt nowSeconds
  | .updateState newState => jp.updateState newState
  | .updateReservation nowSeconds => jp.updateReservation nowSeconds
  | .updateReservedBy clientID => jp.updateReservedBy clientID
  | .updateBuriedAt nowSeconds => jp.updateBuriedAt nowSeconds
  | .resetBuriedAt => jp.resetBuriedAt
  | .incReserveCount => jp.incReserveCount
  | .incTimeoutCount => jp.incTimeoutCount
  | .incReleaseCount => jp.incReleaseCount
  | .incBuryCount => jp.incBuryCount
  | .incKickCount => jp.incKickCount

def getters (jp : JobProto) : JobGetters where
  id := jp.id.toUInt64
  priority := jp.priority
  delay := jp.delay
  ttr := jp.ttr.toInt64
  bodySize := jp.bodySize.toInt64
  body := jp.body
  tubeName := jp.tubeName
  createdAt := jp.createdAt
  readyAt := jp.readyAt
  state := jp.state
  expiresAt := jp.expiresAt
  reservedBy := jp.reservedBy
  buriedAt := jp.buriedAt
  reserveCount := jp.reserveCount
  timeoutCount := jp.timeoutCount
  releaseCount := jp.releaseCount
  buryCount := jp.buryCount
  kickCount := jp.kickCount

end JobProto

/-! ## The record of the state machine stands for both -/

theorem getters_newJobFromJobProto (jp : JobProto) :
    (newJobFromJobProto jp).getters = jp.getters :=
  rfl

theorem newJobFromJobProto_mutate (jp : JobProto) (mutator : JobMutator) :
    newJobFromJobProto (jp.mutate mutator) = (newJobFromJobProto jp).mutate mutator := by
  cases mutator <;> rfl

theorem newJobFromJobProto_foldl_mutate (mutators : List JobMutator) (jp : JobProto) :
    newJobFromJobProto (mutators.foldl JobProto.mutate jp) =
      mutators.foldl Job.mutate (newJobFromJobProto jp) := by
  induction mutators generalizing jp with
  | nil => rfl
  | cons mutator mutators induction =>
      rw [List.foldl_cons, List.foldl_cons, induction, newJobFromJobProto_mutate]

/-! ## When they agree -/

namespace JobMutator

def UpdatesState : JobMutator → Prop
  | .updateState _ => True
  | _ => False

/-- The methods that write the time of burial, and nothing else. -/
def WritesBuriedAt : JobMutator → Prop
  | .updateBuriedAt _ | .resetBuriedAt => True
  | _ => False

instance (mutator : JobMutator) : Decidable mutator.UpdatesState := by
  unfold UpdatesState
  split <;> infer_instance

end JobMutator

namespace Job

/-- The state is updated while the job is buried since a time that is not zero, and the time
of burial is not written afterwards. -/
def LeavesBuried (job : Job) (mutators : List JobMutator) : Prop :=
  ∃ before leaving rest, mutators = before ++ leaving :: rest ∧ leaving.UpdatesState ∧
    (before.foldl mutate job).state = .buried ∧ (before.foldl mutate job).buriedAt ≠ 0 ∧
    ∀ mutator ∈ rest, ¬ mutator.WritesBuriedAt

theorem leavesBuried_snoc (job : Job) (mutators : List JobMutator) (mutator : JobMutator) :
    job.LeavesBuried (mutators ++ [mutator]) ↔
      mutator.UpdatesState ∧ (mutators.foldl mutate job).state = .buried ∧
          (mutators.foldl mutate job).buriedAt ≠ 0 ∨
        job.LeavesBuried mutators ∧ ¬ mutator.WritesBuriedAt := by
  constructor
  · intro leaves
    obtain ⟨before, leaving, rest, isList, updates, isBuried, since, unwritten⟩ := leaves
    rcases List.eq_nil_or_concat rest with rfl | ⟨rest, last, rfl⟩
    · obtain ⟨rfl, isLast⟩ := List.append_inj' isList rfl
      injection isLast with isLast
      subst isLast
      exact Or.inl ⟨updates, isBuried, since⟩
    · rw [List.concat_eq_append, ← List.cons_append, ← List.append_assoc] at isList
      obtain ⟨rfl, isLast⟩ := List.append_inj' isList rfl
      injection isLast with isLast
      subst isLast
      refine Or.inr ⟨⟨before, leaving, rest, rfl, updates, isBuried, since, ?_⟩, ?_⟩
      · exact fun other member => unwritten other (by simp [member])
      · exact unwritten mutator (by simp)
  · intro leaves
    rcases leaves with ⟨updates, isBuried, since⟩ | ⟨leaves, unwritten⟩
    · exact ⟨mutators, mutator, [], rfl, updates, isBuried, since, by simp⟩
    · obtain ⟨before, leaving, rest, rfl, updates, isBuried, since, others⟩ := leaves
      refine ⟨before, leaving, rest ++ [mutator], by simp, updates, isBuried, since, ?_⟩
      intro other member
      rcases List.mem_append.mp member with old | new
      · exact others other old
      · rw [List.mem_singleton.mp new]
        exact unwritten

/-- The `wrapJob` that differs from a job in its time of burial at most. -/
def wrapped (job : Job) (buriedAt : Int64) : Job :=
  { job with impl := .wrapJob, buriedAt }

/-- The time of burial of a `wrapJob` after a method. -/
def keptBuriedAt (buriedAt : Int64) : JobMutator → Int64
  | .updateBuriedAt nowSeconds => nowSeconds
  | .resetBuriedAt => 0
  | _ => buriedAt

theorem mutate_wrapped (job : Job) (buriedAt : Int64) (mutator : JobMutator) :
    (job.wrapped buriedAt).mutate mutator =
      (job.mutate mutator).wrapped (keptBuriedAt buriedAt mutator) := by
  cases mutator with
  | updateState newState =>
      change (job.wrapped buriedAt).updateState newState =
        (job.updateState newState).wrapped buriedAt
      simp [wrapped]
  | _ => rfl

theorem foldl_mutate_wrapped (mutators : List JobMutator) (job : Job) (buriedAt : Int64) :
    mutators.foldl mutate (job.wrapped buriedAt) =
      (mutators.foldl mutate job).wrapped (mutators.foldl keptBuriedAt buriedAt) := by
  induction mutators generalizing job buriedAt with
  | nil => rfl
  | cons mutator mutators induction =>
      rw [List.foldl_cons, List.foldl_cons, List.foldl_cons, mutate_wrapped, induction]

theorem impl_foldl_mutate (mutators : List JobMutator) (job : Job) :
    (mutators.foldl mutate job).impl = job.impl := by
  induction mutators generalizing job with
  | nil => rfl
  | cons mutator mutators induction =>
      rw [List.foldl_cons, induction]
      cases mutator <;> simp [mutate]

/-- The time of burial of a `localJob` after a method. -/
theorem buriedAt_mutate {job : Job} (isLocal : job.impl = .localJob) (mutator : JobMutator) :
    (job.mutate mutator).buriedAt =
      if mutator.UpdatesState ∧ job.state = .buried then 0
      else keptBuriedAt job.buriedAt mutator := by
  cases mutator with
  | updateState newState =>
      change (job.updateState newState).buriedAt =
        if True ∧ job.state = .buried then 0 else job.buriedAt
      simp [isLocal]
  | _ =>
      rw [if_neg fun updates => updates.1]
      rfl

theorem keptBuriedAt_of_not_writes {mutator : JobMutator} (unwritten : ¬ mutator.WritesBuriedAt)
    (buriedAt : Int64) : keptBuriedAt buriedAt mutator = buriedAt := by
  cases mutator with
  | updateBuriedAt nowSeconds => exact absurd trivial unwritten
  | resetBuriedAt => exact absurd trivial unwritten
  | _ => rfl

/-- A method that writes the time of burial does not look at the old one. -/
theorem keptBuriedAt_of_writes {mutator : JobMutator} (writes : mutator.WritesBuriedAt)
    (first second : Int64) :
    keptBuriedAt first mutator = keptBuriedAt second mutator ∧ ¬ mutator.UpdatesState := by
  cases mutator with
  | updateBuriedAt nowSeconds => exact ⟨rfl, False.elim⟩
  | resetBuriedAt => exact ⟨rfl, False.elim⟩
  | _ => exact writes.elim

/-- The times of burial are the same, unless the `localJob` has forgotten its own. -/
theorem keptBuriedAt_iff {job : Job} (isLocal : job.impl = .localJob)
    (mutators : List JobMutator) :
    (mutators.foldl keptBuriedAt job.buriedAt = (mutators.foldl mutate job).buriedAt ∨
        (mutators.foldl mutate job).buriedAt = 0) ∧
      (mutators.foldl keptBuriedAt job.buriedAt = (mutators.foldl mutate job).buriedAt ↔
        ¬ job.LeavesBuried mutators) := by
  induction mutators using List.reverseRecOn with
  | nil => simp [LeavesBuried]
  | append_singleton mutators mutator induction =>
      have stillLocal := (impl_foldl_mutate mutators job).trans isLocal
      rw [List.foldl_append, List.foldl_append, List.foldl_cons, List.foldl_nil, List.foldl_cons,
        List.foldl_nil, buriedAt_mutate stillLocal, leavesBuried_snoc]
      generalize mutators.foldl keptBuriedAt job.buriedAt = kept at induction ⊢
      generalize mutators.foldl mutate job = now at induction ⊢
      obtain ⟨agreed, known⟩ := induction
      by_cases writes : mutator.WritesBuriedAt
      · obtain ⟨same, updatesNot⟩ := keptBuriedAt_of_writes writes kept now.buriedAt
        simp [same, updatesNot, writes]
      · rw [keptBuriedAt_of_not_writes writes, keptBuriedAt_of_not_writes writes]
        by_cases leaves : mutator.UpdatesState ∧ now.state = .buried
        · -- the `localJob` forgets a time that the `wrapJob` keeps
          simp only [leaves, writes, and_self, if_true, or_true, true_and, not_false_eq_true,
            and_true, not_or, ← known, ne_eq, not_not]
          constructor
          · intro isZero
            rcases agreed with same | forgotten
            · exact ⟨same ▸ isZero, same⟩
            · exact ⟨forgotten, isZero.trans forgotten.symm⟩
          · intro both
            exact both.2.trans both.1
        · have stays : ¬ (mutator.UpdatesState ∧ now.state = .buried ∧ now.buriedAt ≠ 0) :=
            fun holds => leaves ⟨holds.1, holds.2.1⟩
          rw [if_neg leaves]
          simp [stays, writes, ← known, agreed]

/-- After any methods, a `localJob` and the `wrapJob` made of it return the same exactly if
the `localJob` has not left the buried state with a time of burial that the `wrapJob`
still has. -/
theorem getters_agree_iff {job : Job} (isLocal : job.impl = .localJob) (fits : job.Fits)
    (mutators : List JobMutator) :
    (mutators.foldl JobProto.mutate (jobToJobProto job)).getters =
        (mutators.foldl mutate job).getters ↔ ¬ job.LeavesBuried mutators := by
  have isWrapped : newJobFromJobProto (jobToJobProto job) = job.wrapped job.buriedAt := by
    rw [newJobFromJobProto_jobToJobProto, restored_of_fits fits, wrapped]
  rw [← getters_newJobFromJobProto, newJobFromJobProto_foldl_mutate, isWrapped,
    foldl_mutate_wrapped, ← (keptBuriedAt_iff isLocal mutators).2]
  simp [getters, wrapped]

/-- A job that is reserved. -/
def reservedOne : Job :=
  { initial 1 10 5 0 60 3 (some [1, 2, 3]) [9] with state := .reserved, reservedBy := [7] }

/-- It is buried and kicked, as the transitions of the state machine do it. -/
def buryAndKick : List JobMutator :=
  [.updateReservedBy [], .updateBuriedAt 20, .updateState .buried, .incBuryCount,
    .resetBuriedAt, .updateState .ready, .incKickCount]

theorem getters_agree_buryAndKick :
    (buryAndKick.foldl JobProto.mutate (jobToJobProto reservedOne)).getters =
      (buryAndKick.foldl mutate reservedOne).getters :=
  (getters_agree_iff rfl ⟨by decide, by decide⟩ buryAndKick).mpr
    ((keptBuriedAt_iff rfl buryAndKick).2.mp (by decide))

/-- A buried job is made ready, without the reset that `fromBuriedToReady` begins with. -/
theorem getters_differ :
    reservedOne.impl = .localJob ∧ reservedOne.Fits ∧
      ([JobMutator.updateBuriedAt 20, .updateState .buried, .updateState .ready].foldl
        JobProto.mutate (jobToJobProto reservedOne)).getters.buriedAt = 20 ∧
      ([JobMutator.updateBuriedAt 20, .updateState .buried, .updateState .ready].foldl
        mutate reservedOne).getters.buriedAt = 0 := by
  exact ⟨rfl, ⟨by decide, by decide⟩, by decide, by decide⟩

end Job

end Coolbeans
