import Coolbeans.BuriedHeaps

/-!
# The numbers of jobs

Every `Put` makes a job and takes the next id for it, so the ids count the jobs.  As long as
the count has not gone round, an id belongs to one job, and an entry that stays on a heap after
its job is gone is not taken for an entry of another job.
-/

namespace Coolbeans

open FiniteMap PositionHeap StatefulProgram

/-- The ids number the jobs in the order in which they were made. -/
structure Numbered (jsm : JSM) : Prop where
  ids : ∀ job < jsm.nextJob, (jsm.jobAt job).id = UInt64.ofNat (job + 1)
  highest : jsm.maxJobID = UInt64.ofNat jsm.nextJob
  entries : ∀ entry < jsm.nextEntry, (jsm.entryAt entry).job < jsm.nextJob

namespace Numbered

variable {kinds : Kinds} {jsm after : JSM} {key : HeapKey} {entry job : Nat}

theorem job_of_entry (numbered : Numbered jsm) (inv : JobsOk kinds jsm)
    (few : jsm.nextJob ≤ 2 ^ 64) (member : entry ∈ jsm.heapAt key) {found : IndexEntry}
    (present : jsm.jobs.lookup (jsm.jobOf entry).id = some found) :
    found.job = (jsm.entryAt entry).job := by
  have foundBound := (inv.indexed _ found present).2
  have entryBound := numbered.entries entry (inv.allocated key entry member)
  have sameId : (jsm.jobAt found.job).id = (jsm.jobOf entry).id := inv.id_of_job present
  rw [numbered.ids _ foundBound, JSM.jobOf, numbered.ids _ entryBound] at sameId
  have sameNumber := congrArg UInt64.toNat sameId
  simp only [UInt64.toNat_ofNat'] at sameNumber
  omega

theorem of_jobView (numbered : Numbered jsm) (same : after.jobView = jsm.jobView)
    (maxJobID : after.maxJobID = jsm.maxJobID) : Numbered after := by
  obtain ⟨_, jobAt, nextJob, entryAt, nextEntry, _⟩ := JSM.fields_of_jobView same
  constructor
  · rw [jobAt, nextJob]
    exact numbered.ids
  · rw [maxJobID, nextJob]
    exact numbered.highest
  · rw [entryAt, nextEntry, nextJob]
    exact numbered.entries

theorem setJobs (numbered : Numbered jsm) (index : FMap JobID IndexEntry) :
    Numbered { jsm with jobs := index } :=
  ⟨numbered.ids, numbered.highest, numbered.entries⟩

theorem updateJob (numbered : Numbered jsm) {change : Job → Job}
    (keepsId : (change (jsm.jobAt job)).id = (jsm.jobAt job).id) :
    Numbered (jsm.updateJob job change) := by
  refine ⟨fun read bound => ?_, numbered.highest, numbered.entries⟩
  rw [← numbered.ids read bound]
  simp only [JSM.updateJob]
  split
  next same => rw [same, keepsId]
  next => rfl

theorem took (numbered : Numbered jsm) (took : Took key entry jsm after) : Numbered after := by
  constructor
  · rw [took.jobAt, took.nextJob]
    exact numbered.ids
  · rw [took.frame.maxJobID, took.nextJob]
    exact numbered.highest
  · intro item bound
    rw [took.nextEntry] at bound
    rw [took.sameJob, took.nextJob]
    exact numbered.entries item bound

theorem entered (numbered : Numbered jsm) (bound : job < jsm.nextJob)
    (into : Entered key job entry jsm after) : Numbered after := by
  constructor
  · rw [into.jobAt, into.nextJob]
    exact numbered.ids
  · rw [into.frame.maxJobID, into.nextJob]
    exact numbered.highest
  · intro item itemBound
    rw [into.nextJob]
    by_cases isNew : item = entry
    · rw [isNew, into.newJob]
      exact bound
    · rw [into.sameJob item isNew]
      apply numbered.entries
      rw [into.nextEntry] at itemBound
      have fresh := into.fresh
      omega

end Numbered

/-- What every step keeps: no job is unmade, the ids number the jobs, and the buried heaps are in
order. -/
structure JobsKept (before after : JSM) : Prop where
  nextJob : before.nextJob ≤ after.nextJob
  numbered : Numbered before → Numbered after
  buried : BuriedInOrder before → BuriedInOrder after

namespace JobsKept

variable {kinds : Kinds} {jsm after : JSM} {id : JobID}

theorem refl (jsm : JSM) : JobsKept jsm jsm :=
  ⟨Nat.le_refl _, fun numbered => numbered, fun buried => buried⟩

theorem trans {first second third : JSM} (before : JobsKept first second)
    (after : JobsKept second third) : JobsKept first third :=
  ⟨before.nextJob.trans after.nextJob, after.numbered ∘ before.numbered,
    after.buried ∘ before.buried⟩

theorem of_jobView (same : after.jobView = jsm.jobView) (maxJobID : after.maxJobID = jsm.maxJobID) :
    JobsKept jsm after :=
  ⟨(JSM.fields_of_jobView same).2.2.1.ge, fun numbered => numbered.of_jobView same maxJobID,
    fun buried => buried.of_jobView same⟩

theorem of_moved {record next : Job} (inv : JobsOk kinds jsm)
    (moved : Moved kinds id record next jsm after) : JobsKept jsm after := by
  obtain ⟨found, change, key, target, _, present, isRecord, isNext, _, _, _, transferred⟩ :=
    moved.transfers
  subst isRecord isNext
  have nextId := moved.inv.recordOf_id (by rw [moved.records, if_pos rfl])
  cases transferred with
  | @intro left entry taken entered took own into =>
      have nextJob : entered.nextJob = jsm.nextJob := into.nextJob.trans took.nextJob
      refine ⟨nextJob.ge, fun numbered => ?_, fun buried => buried.moved inv moved⟩
      have bound := (inv.indexed id found present).2
      refine (((numbered.took took).updateJob ?_).entered (took.nextJob ▸ bound) into).setJobs _
      rw [took.jobAt, nextId, inv.id_of_job present]

end JobsKept

end Coolbeans
