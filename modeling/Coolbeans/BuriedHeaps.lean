import Coolbeans.JobMoves

/-!
# The order of the buried heaps

The deletion of a buried job leaves its entry on the buried heap and takes away the time at
which it was buried, so the heap need not be in order any more.  But an entry that was left
behind stays for good: a buried heap on which every entry is one of an indexed job has never
lost one, and it is in order.
-/

namespace Coolbeans

open FiniteMap PositionHeap StatefulProgram

/-- The index knows the job of an entry. -/
def JSM.Indexes (jsm : JSM) (entry : Nat) : Prop :=
  ∃ id found, jsm.jobs.lookup id = some found ∧ found.job = (jsm.entryAt entry).job

/-- An indexed job that has an entry on a buried heap is buried there and indexed with that
entry, and a buried heap without other entries is in order. -/
structure BuriedInOrder (jsm : JSM) : Prop where
  allocated : ∀ tubeName, ∀ entry ∈ jsm.heapAt (.buried tubeName),
    (jsm.entryAt entry).job < jsm.nextJob
  own : ∀ tubeName, ∀ entry ∈ jsm.heapAt (.buried tubeName), ∀ id found,
    jsm.jobs.lookup id = some found → found.job = (jsm.entryAt entry).job →
    found.entry = some entry ∧ (jsm.jobAt found.job).home = some (.buried tubeName)
  ordered : ∀ tubeName, (∀ entry ∈ jsm.heapAt (.buried tubeName), jsm.Indexes entry) →
    Ordered (jsm.keyIn (.buried tubeName)) (jsm.heapAt (.buried tubeName))

namespace BuriedInOrder

variable {kinds : Kinds} {id : JobID} {jsm before after : JSM}

theorem of_empty (noHeap : ∀ key, jsm.heapAt key = []) : BuriedInOrder jsm := by
  constructor
  · intro tubeName entry member
    simp [noHeap] at member
  · intro tubeName entry member
    simp [noHeap] at member
  · intro tubeName _ c _ bound
    simp [noHeap] at bound

/-- What an entry of a buried heap keeps when something else is written: its job, what the index
says of it, and, as long as it is indexed, its place in the order. -/
structure EntryKept (tubeName : TubeName) (entry : Nat) (before after : JSM) : Prop where
  job : (after.entryAt entry).job = (before.entryAt entry).job
  index : ∀ id found, after.jobs.lookup id = some found →
    found.job = (before.entryAt entry).job → before.jobs.lookup id = some found ∧
      (after.jobAt found.job).home = (before.jobAt found.job).home
  sortKey : after.Indexes entry →
    after.keyIn (.buried tubeName) entry = before.keyIn (.buried tubeName) entry

theorem EntryKept.indexes {tubeName : TubeName} {entry : Nat}
    (kept : EntryKept tubeName entry before after) (indexed : after.Indexes entry) :
    before.Indexes entry := by
  obtain ⟨id, found, present, isJob⟩ := indexed
  rw [kept.job] at isJob
  exact ⟨id, found, (kept.index id found present isJob).1, isJob⟩

theorem of_write (ok : BuriedInOrder before) (nextJob : before.nextJob ≤ after.nextJob)
    (heaps : ∀ tubeName, after.heapAt (.buried tubeName) = before.heapAt (.buried tubeName))
    (entries : ∀ tubeName, ∀ entry ∈ before.heapAt (.buried tubeName),
      EntryKept tubeName entry before after) : BuriedInOrder after := by
  constructor
  · intro tubeName entry member
    rw [heaps] at member
    rw [(entries tubeName entry member).job]
    exact Nat.lt_of_lt_of_le (ok.allocated tubeName entry member) nextJob
  · intro tubeName entry member id found present isJob
    rw [heaps] at member
    have kept := entries tubeName entry member
    rw [kept.job] at isJob
    obtain ⟨wasPresent, sameHome⟩ := kept.index id found present isJob
    rw [sameHome]
    exact ok.own tubeName entry member id found wasPresent isJob
  · intro tubeName indexed
    rw [heaps] at indexed ⊢
    have wasOrdered := ok.ordered tubeName fun entry member =>
      (entries tubeName entry member).indexes (indexed entry member)
    apply wasOrdered.congr
    intro entry member
    exact (entries tubeName entry member).sortKey (indexed entry member)

theorem of_jobView (ok : BuriedInOrder before) (same : after.jobView = before.jobView) :
    BuriedInOrder after := by
  obtain ⟨jobs, jobAt, nextJob, entryAt, _, heapAt⟩ := JSM.fields_of_jobView same
  refine ok.of_write nextJob.ge (fun _ => by rw [heapAt]) fun tubeName entry _ => ⟨?_, ?_, ?_⟩
  · rw [entryAt]
  · rw [jobs, jobAt]
    exact fun _ _ present _ => ⟨present, rfl⟩
  · simp only [JSM.keyIn, JSM.jobOf, jobAt, entryAt, implies_true]

/-! ## Jobs that are not on a buried heap -/

/-- No buried heap has an entry of the job. -/
def Unlisted (job : Nat) (jsm : JSM) : Prop :=
  ∀ tubeName, ∀ entry ∈ jsm.heapAt (.buried tubeName), (jsm.entryAt entry).job ≠ job

theorem updateJob (ok : BuriedInOrder jsm) {job : Nat} (unlisted : Unlisted job jsm)
    (change : Job → Job) : BuriedInOrder (jsm.updateJob job change) := by
  refine ok.of_write (Nat.le_refl _) (fun _ => rfl) fun tubeName entry member => ?_
  have notJob := unlisted tubeName entry member
  refine ⟨rfl, fun id found present isJob => ⟨present, ?_⟩, fun _ => ?_⟩
  · simp only [JSM.updateJob, isJob, if_neg notJob]
  · simp only [JSM.keyIn, JSM.jobOf, JSM.updateJob, if_neg notJob]

theorem allocJob (ok : BuriedInOrder jsm) (record : Job) :
    BuriedInOrder (jsm.allocJob record) := by
  refine ok.of_write (Nat.le_succ _) (fun _ => rfl) fun tubeName entry member => ?_
  have notNew : (jsm.entryAt entry).job ≠ jsm.nextJob :=
    Nat.ne_of_lt (ok.allocated tubeName entry member)
  refine ⟨rfl, fun id found present isJob => ⟨present, ?_⟩, fun _ => ?_⟩
  · simp only [JSM.allocJob, isJob, if_neg notNew]
  · simp only [JSM.keyIn, JSM.jobOf, JSM.allocJob, if_neg notNew]

/-- The index forgets jobs, or learns of jobs that are not on a buried heap. -/
theorem setJobs (ok : BuriedInOrder jsm) {index : FMap JobID IndexEntry}
    (indexed : ∀ id found, index.lookup id = some found →
      jsm.jobs.lookup id = some found ∨ Unlisted found.job jsm) :
    BuriedInOrder { jsm with jobs := index } := by
  refine ok.of_write (Nat.le_refl _) (fun _ => rfl) fun tubeName entry member =>
    ⟨rfl, fun id found present isJob => ⟨?_, rfl⟩, fun _ => rfl⟩
  refine (indexed id found present).resolve_right fun unlisted => ?_
  exact unlisted tubeName entry member isJob.symm

/-- A job that is not indexed may change, even if it has an entry on a buried heap. -/
theorem updateUnindexed (ok : BuriedInOrder jsm) {job : Nat}
    (unindexed : ∀ id found, jsm.jobs.lookup id = some found → found.job ≠ job)
    (change : Job → Job) : BuriedInOrder (jsm.updateJob job change) := by
  refine ok.of_write (Nat.le_refl _) (fun _ => rfl) fun tubeName entry member =>
    ⟨rfl, fun id found present isJob => ⟨present, ?_⟩, ?_⟩
  · simp only [JSM.updateJob, if_neg (unindexed id found present)]
  · rintro ⟨id, found, present, isJob⟩
    have notJob : (jsm.entryAt entry).job ≠ job := fun same =>
      unindexed id found present (isJob.trans same)
    simp only [JSM.keyIn, JSM.jobOf, JSM.updateJob, if_neg notJob]

/-! ## A job leaves its heap and enters another -/

theorem mem_of_took {key : HeapKey} {left : Nat} {taken : JSM} (took : Took key left jsm taken)
    {tubeName : TubeName} {entry : Nat} (member : entry ∈ taken.heapAt (.buried tubeName)) :
    entry ∈ jsm.heapAt (.buried tubeName) := by
  by_cases same : HeapKey.buried tubeName = key
  · subst key
    exact took.perm.mem_iff.mp (List.mem_cons_of_mem _ member)
  · rwa [took.others _ same] at member

theorem Indexes_of_took {key : HeapKey} {left : Nat} {taken : JSM} (took : Took key left jsm taken)
    (entry : Nat) : taken.Indexes entry ↔ jsm.Indexes entry := by
  simp only [JSM.Indexes, took.jobs, took.sameJob]

/-- An entry leaves a heap; from a buried heap only one of an indexed job does. -/
theorem took (ok : BuriedInOrder jsm) {key : HeapKey} {left : Nat} {taken : JSM}
    (took : Took key left jsm taken) (indexed : key.kind = .buried → jsm.Indexes left) :
    BuriedInOrder taken := by
  constructor
  · intro tubeName entry member
    rw [took.sameJob, took.nextJob]
    exact ok.allocated tubeName entry (mem_of_took took member)
  · intro tubeName entry member id found present isJob
    rw [took.jobs] at present
    rw [took.sameJob] at isJob
    rw [took.jobAt]
    exact ok.own tubeName entry (mem_of_took took member) id found present isJob
  · intro tubeName allIndexed
    have sameKeys : ∀ entry, taken.keyIn (.buried tubeName) entry =
        jsm.keyIn (.buried tubeName) entry := by
      intro entry
      rw [JSM.keyIn, JSM.keyIn, JSM.jobOf, JSM.jobOf, took.jobAt, took.sameJob]
    by_cases same : HeapKey.buried tubeName = key
    · subst key
      have wasOrdered := ok.ordered tubeName fun entry member => by
        rcases List.mem_cons.mp (took.perm.mem_iff.mpr member) with rfl | stays
        · exact indexed rfl
        · exact (Indexes_of_took took entry).mp (allIndexed entry stays)
      exact (took.ordered wasOrdered).congr fun entry _ => sameKeys entry
    · rw [took.others _ same] at allIndexed ⊢
      apply (ok.ordered tubeName fun entry member =>
        (Indexes_of_took took entry).mp (allIndexed entry member)).congr
      exact fun entry _ => sameKeys entry

theorem unlisted_of_took (ok : BuriedInOrder jsm) (inv : JobsOk kinds jsm) {found : IndexEntry}
    (present : jsm.jobs.lookup id = some found) {key : HeapKey} {left : Nat} {taken : JSM}
    (isHome : (jsm.jobAt found.job).home = some key) (took : Took key left jsm taken)
    (own : kinds.held key.kind → found.entry = some left) : Unlisted found.job taken := by
  intro tubeName entry member isJob
  rw [took.sameJob] at isJob
  obtain ⟨named, home⟩ :=
    ok.own tubeName entry (mem_of_took took member) id found present isJob.symm
  rw [isHome] at home
  cases home
  rw [own kinds.held_buried] at named
  cases named
  -- the entry that has left the heap is not on it twice
  have nodup : (left :: taken.heapAt (.buried tubeName)).Nodup :=
    took.perm.nodup_iff.mpr (inv.tracked (.buried tubeName)).nodup
  exact (List.nodup_cons.mp nodup).1 member

/-- A job that is on no buried heap enters one or another heap. -/
theorem entered (ok : BuriedInOrder jsm) {job : Nat} (bound : job < jsm.nextJob)
    (unlisted : Unlisted job jsm)
    (old : ∀ tubeName, ∀ item ∈ jsm.heapAt (.buried tubeName), item < jsm.nextEntry)
    (unique : ∀ other found, jsm.jobs.lookup other = some found → found.job = job → other = id)
    {target : HeapKey} {entry : Nat} (into : Entered target job entry jsm after)
    (atHome : ∀ tubeName, target = .buried tubeName →
      (jsm.jobAt job).home = some (.buried tubeName)) :
    BuriedInOrder { after with jobs := after.jobs.insert id ⟨job, some entry⟩ } := by
  have sameJob : ∀ tubeName, ∀ item ∈ jsm.heapAt (.buried tubeName),
      (after.entryAt item).job = (jsm.entryAt item).job := by
    intro tubeName item member
    apply into.sameJob
    rw [into.fresh]
    exact Nat.ne_of_lt (old tubeName item member)
  have memCases : ∀ tubeName, ∀ item ∈ after.heapAt (.buried tubeName),
      item = entry ∧ target = .buried tubeName ∨ item ∈ jsm.heapAt (.buried tubeName) := by
    intro tubeName item member
    by_cases same : HeapKey.buried tubeName = target
    · subst target
      rcases List.mem_cons.mp (into.perm.mem_iff.mp member) with isNew | stays
      · exact Or.inl ⟨isNew, rfl⟩
      · exact Or.inr stays
    · rw [into.others _ same] at member
      exact Or.inr member
  constructor
  · intro tubeName item member
    change (after.entryAt item).job < after.nextJob
    rw [into.nextJob]
    rcases memCases tubeName item member with ⟨rfl, _⟩ | stays
    · rw [into.newJob]
      exact bound
    · rw [sameJob tubeName item stays]
      exact ok.allocated tubeName item stays
  · intro tubeName item member other found present isJob
    change (after.jobs.insert id ⟨job, some entry⟩).lookup other = _ at present
    change found.job = (after.entryAt item).job at isJob
    change _ ∧ (after.jobAt found.job).home = _
    rw [into.jobs, lookup_insert] at present
    rw [into.jobAt]
    rcases memCases tubeName item member with ⟨rfl, isTarget⟩ | stays
    · rw [into.newJob] at isJob
      split at present
      next =>
        cases present
        exact ⟨rfl, atHome tubeName isTarget⟩
      next different => exact absurd (unique other found present isJob) different
    · rw [sameJob tubeName item stays] at isJob
      split at present
      next =>
        cases present
        exact absurd isJob.symm (unlisted tubeName item stays)
      next => exact ok.own tubeName item stays other found present isJob
  · intro tubeName allIndexed
    change Ordered (after.keyIn (.buried tubeName)) (after.heapAt (.buried tubeName))
    -- an old entry that is indexed now was indexed before, as it is not one of the new job
    have wasIndexed : ∀ item ∈ jsm.heapAt (.buried tubeName),
        item ∈ after.heapAt (.buried tubeName) → jsm.Indexes item := by
      intro item stays member
      obtain ⟨other, found, present, isJob⟩ := allIndexed item member
      change (after.jobs.insert id ⟨job, some entry⟩).lookup other = _ at present
      change found.job = (after.entryAt item).job at isJob
      rw [sameJob tubeName item stays] at isJob
      rw [into.jobs, lookup_insert] at present
      split at present
      · cases present
        exact absurd isJob.symm (unlisted tubeName item stays)
      · exact ⟨other, found, present, isJob⟩
    have sameKeys : ∀ item ∈ jsm.heapAt (.buried tubeName),
        after.keyIn (.buried tubeName) item = jsm.keyIn (.buried tubeName) item := by
      intro item member
      rw [JSM.keyIn, JSM.keyIn, JSM.jobOf, JSM.jobOf, sameJob tubeName item member, into.jobAt]
    by_cases same : HeapKey.buried tubeName = target
    · subst target
      have wasOrdered := ok.ordered tubeName fun item member =>
        wasIndexed item member (into.perm.mem_iff.mpr (List.mem_cons_of_mem _ member))
      exact into.ordered (wasOrdered.congr sameKeys)
    · rw [into.others _ same] at wasIndexed ⊢
      exact (ok.ordered tubeName fun item member => wasIndexed item member member).congr sameKeys

theorem moved {record next : Job} (ok : BuriedInOrder jsm) (inv : JobsOk kinds jsm)
    (moved : Moved kinds id record next jsm after) : BuriedInOrder after := by
  obtain ⟨found, change, key, target, home, present, isRecord, isNext, isHome, newHome, fits,
    transferred⟩ := moved.transfers
  subst isRecord isNext
  cases transferred with
  | @intro left entry taken entered took own into =>
      have unlisted := ok.unlisted_of_took inv present isHome took own
      have indexed : key.kind = .buried → jsm.Indexes left := by
        intro isBuried
        obtain ⟨ownEntry, _, named, _, entryJob, _⟩ := inv.entered id found present (by simp)
        rw [own (isBuried ▸ kinds.held_buried)] at named
        cases named
        exact ⟨id, found, present, entryJob.symm⟩
      refine ((ok.took took indexed).updateJob unlisted change).entered ?_ unlisted ?_ ?_ into ?_
      · exact took.nextJob ▸ (inv.indexed id found present).2
      · intro tubeName item member
        change item < taken.nextEntry
        rw [took.nextEntry]
        exact inv.allocated (.buried tubeName) item (mem_of_took took member)
      · intro other otherFound otherPresent same
        change taken.jobs.lookup other = _ at otherPresent
        rw [took.jobs] at otherPresent
        rw [← inv.id_of_job otherPresent, same, inv.id_of_job present]
      · rintro tubeName rfl
        have isTarget : home = .buried tubeName :=
          fits.resolve_right fun neither => neither.1 kinds.held_buried
        simp only [JSM.updateJob, if_true, took.jobAt]
        exact isTarget ▸ newHome

end BuriedInOrder

end Coolbeans
