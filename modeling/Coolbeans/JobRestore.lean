import Coolbeans.ExactContainers

/-!
# Restoring the job containers

`RestoreJobs` indexes each job and enters it into the heap that its state calls
for.  Whatever the heaps of the snapshot's origin were like, the restored ones
are exact.
-/

namespace Coolbeans

open FiniteMap PositionHeap StatefulProgram

/-- Every heap is exact. -/
def Kinds.all : Kinds where
  exact _ := True
  held _ := True
  held_of_exact _ _ := trivial
  held_buried := trivial

theorem JobsOk.of_all {kinds : Kinds} {jsm : JSM} (inv : JobsOk .all jsm) : JobsOk kinds jsm where
  tracked := inv.tracked
  disjoint := inv.disjoint
  allocated := inv.allocated
  indexed := inv.indexed
  entered := by
    intro id found present notHole
    obtain ⟨entry, key, named, bound, entryJob, home, held⟩ :=
      inv.entered id found present notHole
    exact ⟨entry, key, named, bound, entryJob, home, fun _ => held trivial⟩
  exact := fun key entry _ => inv.exact key entry trivial
  ordered := fun key _ => inv.ordered key trivial

/-! ## One job -/

theorem enqueueRestored_returns (jsm : JSM) {record : Job} {job : Nat} {key : HeapKey}
    (stored : jsm.jobAt job = record) (isHome : record.home = some key) :
    ∃ entry after, enqueueRestored record job jsm =
        .ok () { after with jobs := after.jobs.insert record.id ⟨job, some entry⟩ } ∧
      Entered key job entry jsm after := by
  have enters : ∀ (enqueue : Nat → JSMProg Nat) (keyOf : Job → HeapKey), Enters enqueue keyOf →
      key = keyOf record →
      ∃ entry after, (do
          let entry ← enqueue job
          JobIndex.setEntry record.id job entry : JSMProg Unit) jsm =
        .ok () { after with jobs := after.jobs.insert record.id ⟨job, some entry⟩ } ∧
      Entered key job entry jsm after := by
    intro enqueue keyOf enters isKey
    obtain ⟨entry, after, returns, entered, _⟩ := (enters jsm job).returns
    rw [stored, ← isKey] at entered
    refine ⟨entry, after, ?_, entered⟩
    rw [Prog.bind_apply, returns, Outcome.ok_andThen]
    rfl
  unfold enqueueRestored
  unfold Job.home at isHome
  split at isHome
  all_goals
    rename_i state
    simp only [state]
    cases isHome
  · exact enters _ _ enters_enqueueReadyJob rfl
  · exact enters _ _ enters_enqueueDelayedJob rfl
  · exact enters _ _ enters_enqueueBuriedJob rfl
  · exact enters _ _ (enters_enqueueReservedJob record.reservedBy) rfl

/-- The id is the highest one of the records, or zero. -/
def HighestID (records : List Job) (highest : JobID) : Prop :=
  (∀ record ∈ records, record.id ≤ highest) ∧
    (highest = 0 ∨ ∃ record ∈ records, record.id = highest)

theorem HighestID.raise {records : List Job} {highest : JobID}
    (isHighest : HighestID records highest)
    (record : Job) :
    HighestID (records ++ [record]) (if highest < record.id then record.id else highest) := by
  obtain ⟨bound, reached⟩ := isHighest
  split
  next higher =>
    refine ⟨?_, Or.inr ⟨record, by simp, rfl⟩⟩
    intro other member
    rcases List.mem_append.mp member with old | new
    · exact UInt64.le_trans (bound other old) (UInt64.le_of_lt higher)
    · rw [List.mem_singleton.mp new]
      exact UInt64.le_refl _
  next lower =>
    constructor
    · intro other member
      rcases List.mem_append.mp member with old | new
      · exact bound other old
      · rw [List.mem_singleton.mp new]
        exact UInt64.not_lt.mp lower
    · rcases reached with isZero | ⟨other, member, same⟩
      · exact Or.inl isZero
      · exact Or.inr ⟨other, List.mem_append_left _ member, same⟩

/-- The containers hold the records, and nothing else.  A record whose state calls for no
heap is indexed without an entry; the others are on their heaps, under the part `index` of
the job index. -/
structure Rebuilt (records : List Job) (before after : JSM) : Prop where
  homed : ∃ index : FMap JobID IndexEntry, JobInv .all none index after ∧
    ∀ id, index.lookup id =
      (after.jobs.lookup id).filter fun found => (after.jobAt found.job).home.isSome
  indexed : ∀ id found, after.jobs.lookup id = some found →
    (after.jobAt found.job).id = id ∧ found.job < after.nextJob ∧
      ((after.jobAt found.job).home = none → found.entry = none)
  recordOf : ∀ id, after.recordOf id = records.find? (·.id = id)
  clients : after.clientView = before.clientView
  nextDelayTickAt : after.nextDelayTickAt = before.nextDelayTickAt
  highest : HighestID records after.maxJobID

/-- The containers hold the records, each on its heap, and nothing else. -/
structure JobsRestored (records : List Job) (before after : JSM) : Prop where
  inv : JobsOk .all after
  recordOf : ∀ id, after.recordOf id = records.find? (·.id = id)
  clients : after.clientView = before.clientView
  nextDelayTickAt : after.nextDelayTickAt = before.nextDelayTickAt
  bound : ∀ record ∈ records, record.id ≤ after.maxJobID
  reached : after.maxJobID = 0 ∨ ∃ record ∈ records, record.id = after.maxJobID

/-- No job is indexed or on a heap, and no id has been taken. -/
structure NoJobs (jsm : JSM) : Prop where
  heapAt : ∀ key, jsm.heapAt key = []
  lookup : ∀ id, jsm.jobs.lookup id = none
  maxJobID : jsm.maxJobID = 0

theorem NoJobs.rebuilt {jsm : JSM} (noJobs : NoJobs jsm) : Rebuilt [] jsm jsm where
  homed := by
    refine ⟨jsm.jobs, ?_, ?_⟩
    · exact jobsOk_of_empty noJobs.heapAt fun id found => by simp [noJobs.lookup]
    · intro id
      rw [noJobs.lookup]
      rfl
  indexed := fun id found present => by simp [noJobs.lookup] at present
  recordOf := fun id => by simp [JSM.recordOf, noJobs.lookup]
  clients := rfl
  nextDelayTickAt := rfl
  highest := ⟨by simp, Or.inl noJobs.maxJobID⟩

/-! ## Indexed records -/

theorem find_id_of_nodup {records : List Job} (ids : (records.map (·.id)).Nodup) {record : Job}
    (member : record ∈ records) : records.find? (·.id = record.id) = some record := by
  cases found : records.find? (·.id = record.id) with
  | none =>
      rw [List.find?_eq_none] at found
      exact absurd (decide_eq_true rfl) (found record member)
  | some other =>
      have sameId : other.id = record.id := by
        simpa using List.find?_some found
      rw [List.inj_on_of_nodup_map ids (List.mem_of_find?_eq_some found) member sameId]

section Restore

variable {records : List Job} {before jsm : JSM}

/-- The invariant reads the index through its lookups. -/
theorem JobInv.of_lookup {kinds : Kinds} {hole : Option JobID} {index other : FMap JobID IndexEntry}
    (inv : JobInv kinds hole index jsm) (same : ∀ id, other.lookup id = index.lookup id) :
    JobInv kinds hole other jsm where
  tracked := inv.tracked
  disjoint := inv.disjoint
  allocated := inv.allocated
  indexed := by simpa only [same] using inv.indexed
  entered := by simpa only [same] using inv.entered
  exact := by simpa only [same] using inv.exact
  ordered := inv.ordered

/-- Records that all call for a heap. -/
theorem Rebuilt.restored {after : JSM} (rebuilt : Rebuilt records before after)
    (homes : ∀ record ∈ records, ∃ key, record.home = some key) :
    JobsRestored records before after where
  inv := by
    obtain ⟨index, inv, sameIndex⟩ := rebuilt.homed
    apply inv.of_lookup
    intro id
    rw [sameIndex]
    cases present : after.jobs.lookup id with
    | none => rfl
    | some found =>
        have recorded := rebuilt.recordOf id
        rw [JSM.recordOf_eq present] at recorded
        obtain ⟨key, isHome⟩ := homes _ (List.mem_of_find?_eq_some recorded.symm)
        rw [Option.filter_some, isHome]
        rfl
  recordOf := rebuilt.recordOf
  clients := rebuilt.clients
  nextDelayTickAt := rebuilt.nextDelayTickAt
  bound := rebuilt.highest.1
  reached := rebuilt.highest.2

/-- A job under a new id, with the index and the highest id in place and the heap entry not. -/
def JSM.indexJob (jsm : JSM) (record : Job) : JSM :=
  { jsm.allocJob record with
    jobs := jsm.jobs.insert record.id ⟨jsm.nextJob, none⟩
    maxJobID := if jsm.maxJobID < record.id then record.id else jsm.maxJobID }

theorem jobAt_indexJob (record : Job) : (jsm.indexJob record).jobAt jsm.nextJob = record := by
  simp [JSM.indexJob, JSM.allocJob]

theorem jobAt_indexJob_of_lt (record : Job) {job : Nat} (old : job < jsm.nextJob) :
    (jsm.indexJob record).jobAt job = jsm.jobAt job := by
  have different : job ≠ jsm.nextJob := by omega
  simp [JSM.indexJob, JSM.allocJob, different]

theorem restoreJob_of_absent {record : Job} (absent : jsm.jobs.lookup record.id = none) :
    restoreJob record jsm = enqueueRestored record jsm.nextJob (jsm.indexJob record) := by
  have stored : (jsm.allocJob record).jobAt jsm.nextJob = record := by
    simp [JSM.allocJob]
  have adds : JobIndex.add jsm.nextJob (jsm.allocJob record) =
      .ok () { jsm.allocJob record with
        jobs := jsm.jobs.insert record.id ⟨jsm.nextJob, none⟩ } := by
    have missing : (jsm.allocJob record).jobs.lookup record.id = none := absent
    simp only [JobIndex.add, stored, missing]
    rfl
  unfold restoreJob
  rw [Prog.bind_apply, show allocJob record jsm = .ok jsm.nextJob (jsm.allocJob record) from rfl,
    Outcome.ok_andThen, Prog.bind_apply, adds, Outcome.ok_andThen, Prog.bind_apply,
    Prog.modify_apply, Outcome.ok_andThen]
  congr 1
  change (if jsm.maxJobID < record.id then _ else _) = jsm.indexJob record
  simp only [JSM.indexJob]
  split <;> rfl

theorem restoreJob_of_present {record : Job} {found : IndexEntry}
    (present : jsm.jobs.lookup record.id = some found) :
    restoreJob record jsm = .err .entryExists (jsm.allocJob record) := by
  have stored : (jsm.allocJob record).jobAt jsm.nextJob = record := by
    simp [JSM.allocJob]
  have taken : (jsm.allocJob record).jobs.lookup record.id = some found := present
  have refuses : JobIndex.add jsm.nextJob (jsm.allocJob record) =
      .err .entryExists (jsm.allocJob record) := by
    simp only [JobIndex.add, stored, taken]
  unfold restoreJob
  rw [Prog.bind_apply, show allocJob record jsm = .ok jsm.nextJob (jsm.allocJob record) from rfl,
    Outcome.ok_andThen, Prog.bind_apply, refuses]
  rfl

theorem Rebuilt.absent (rebuilt : Rebuilt records before jsm) {record : Job}
    (fresh : ∀ other ∈ records, other.id ≠ record.id) : jsm.jobs.lookup record.id = none := by
  have absentRecord : jsm.recordOf record.id = none := by
    rw [rebuilt.recordOf, List.find?_eq_none]
    simpa using fresh
  simpa [JSM.recordOf] using absentRecord

/-- A job has come in, with an entry of the index that names its heap entry, if it has one. -/
theorem Rebuilt.add (rebuilt : Rebuilt records before jsm) {record : Job}
    (fresh : ∀ other ∈ records, other.id ≠ record.id) (entry : Option Nat) {after : JSM}
    {index : FMap JobID IndexEntry} (inv : JobInv .all none index after)
    (homeless : record.home = none → entry = none)
    (own : index.lookup record.id = (some ⟨jsm.nextJob, entry⟩ : Option IndexEntry).filter
      fun _ => record.home.isSome)
    (others : ∀ id, id ≠ record.id → index.lookup id =
      (jsm.jobs.lookup id).filter fun found => (jsm.jobAt found.job).home.isSome)
    (lookup : ∀ id, after.jobs.lookup id =
      if id = record.id then some ⟨jsm.nextJob, entry⟩ else jsm.jobs.lookup id)
    (jobAt : after.jobAt = (jsm.indexJob record).jobAt)
    (nextJob : after.nextJob = (jsm.indexJob record).nextJob)
    (frame : JobFrame (jsm.indexJob record) after) :
    Rebuilt (records ++ [record]) before after where
  homed := by
    refine ⟨index, inv, fun id => ?_⟩
    rw [lookup, jobAt]
    split
    next same =>
      rw [same, own, Option.filter_some, Option.filter_some, jobAt_indexJob]
    next different =>
      rw [others id different]
      cases present : jsm.jobs.lookup id with
      | none => rfl
      | some found =>
          rw [Option.filter_some, Option.filter_some,
            jobAt_indexJob_of_lt record (rebuilt.indexed id found present).2.1]
  indexed := by
    intro id found present
    rw [lookup] at present
    rw [jobAt, nextJob]
    split at present
    next same =>
      cases present
      rw [jobAt_indexJob, same]
      exact ⟨rfl, Nat.lt_succ_self _, homeless⟩
    next =>
      obtain ⟨sameId, bound, noEntry⟩ := rebuilt.indexed id found present
      rw [jobAt_indexJob_of_lt record bound]
      exact ⟨sameId, Nat.lt_succ_of_lt bound, noEntry⟩
  recordOf := by
    intro id
    rw [List.find?_append, ← rebuilt.recordOf]
    simp only [JSM.recordOf, lookup, jobAt]
    split
    next same =>
      subst same
      rw [rebuilt.absent fresh]
      simp [jobAt_indexJob]
    next different =>
      have notRecord : record.id ≠ id := fun same => different same.symm
      cases present : jsm.jobs.lookup id with
      | none => simp [notRecord]
      | some found => simp [jobAt_indexJob_of_lt record (rebuilt.indexed id found present).2.1]
  clients := frame.clients.trans rebuilt.clients
  nextDelayTickAt := frame.nextDelayTickAt.trans rebuilt.nextDelayTickAt
  highest := by
    rw [frame.maxJobID]
    exact rebuilt.highest.raise record

/-- A job under a new id is restored, whatever its state. -/
theorem restoreJob_rebuilt (rebuilt : Rebuilt records before jsm) {record : Job}
    (fresh : ∀ other ∈ records, other.id ≠ record.id) :
    ∃ after, restoreJob record jsm = .ok () after ∧ Rebuilt (records ++ [record]) before after := by
  have absent := rebuilt.absent fresh
  obtain ⟨index, inv, sameIndex⟩ := rebuilt.homed
  have unindexed : index.lookup record.id = none := by
    rw [sameIndex, absent]
    rfl
  have allocated : JobInv .all none index (jsm.indexJob record) :=
    (inv.allocJob record).congr rfl rfl rfl rfl fun key => by cases key <;> rfl
  have lookup : ∀ id, (jsm.indexJob record).jobs.lookup id =
      if id = record.id then some ⟨jsm.nextJob, none⟩ else jsm.jobs.lookup id :=
    fun id => lookup_insert _ _ id _
  rw [restoreJob_of_absent absent]
  cases isHome : record.home with
  | none =>
      have stays : enqueueRestored record jsm.nextJob (jsm.indexJob record) =
          .ok () (jsm.indexJob record) := by
        unfold enqueueRestored
        unfold Job.home at isHome
        split at isHome <;> simp_all
      refine ⟨_, stays, rebuilt.add fresh none allocated (fun _ => rfl) ?_
        (fun id _ => sameIndex id) lookup rfl rfl (.refl _)⟩
      rw [unindexed, isHome]
      rfl
  | some key =>
      obtain ⟨entry, after, returns, entered⟩ :=
        enqueueRestored_returns (jsm.indexJob record) (jobAt_indexJob record) isHome
      have hole := allocated.insertIndex unindexed (congrArg Job.id (jobAt_indexJob record))
        (Nat.lt_succ_self jsm.nextJob)
      have present : (index.insert record.id ⟨jsm.nextJob, none⟩).lookup record.id =
          some ⟨jsm.nextJob, none⟩ := by
        rw [lookup_insert, if_pos rfl]
      have atHome : ((jsm.indexJob record).jobAt jsm.nextJob).home = some key := by
        rw [jobAt_indexJob]
        exact isHome
      have closed : JobInv .all none _
          { after with jobs := after.jobs.insert record.id ⟨jsm.nextJob, some entry⟩ } :=
        (hole.entered_home present atHome (Or.inl rfl) entered).congr rfl rfl rfl rfl
          fun key => by cases key <;> rfl
      refine ⟨_, returns, rebuilt.add fresh (some entry) closed ?_ ?_ ?_ ?_ entered.jobAt
        entered.nextJob (entered.frame.trans (.setJobs after _))⟩
      · intro noHome
        rw [isHome] at noHome
        cases noHome
      · rw [lookup_insert, if_pos rfl, isHome]
        rfl
      · intro id different
        rw [lookup_insert, if_neg different, lookup_insert, if_neg different,
          sameIndex]
      · intro id
        rw [lookup_insert, entered.jobs, lookup]
        split <;> rfl

/-! ## All jobs -/

/-- Jobs are restored, whatever their states, up to the first id that comes again. -/
theorem ends_forEach_restoreJob (noJobs : NoJobs before) (records : List Job) :
    (forEach restoreJob records before).Ends
      (fun _ after => (records.map (·.id)).Nodup ∧ Rebuilt records before after)
      (fun _ _ => ¬ (records.map (·.id)).Nodup) False := by
  apply Prog.ends_foldlM records
    (fun done _ after => (done.map (·.id)).Nodup ∧ Rebuilt done before after)
    _ ⟨List.nodup_nil, noJobs.rebuilt⟩
  intro done record rest _ jsm split restored
  obtain ⟨ids, rebuilt⟩ := restored
  by_cases fresh : ∀ other ∈ done, other.id ≠ record.id
  · obtain ⟨after, returns, next⟩ := restoreJob_rebuilt rebuilt fresh
    rw [returns]
    refine ⟨?_, next⟩
    rw [List.map_append, List.nodup_append]
    refine ⟨ids, by simp, ?_⟩
    intro id isOld other isNew
    obtain ⟨old, member, rfl⟩ := List.mem_map.mp isOld
    rw [List.mem_singleton.mp isNew]
    exact fresh old member
  · simp only [not_forall, not_not] at fresh
    obtain ⟨other, member, same⟩ := fresh
    have recorded := rebuilt.recordOf record.id
    rw [← same, find_id_of_nodup ids member] at recorded
    obtain ⟨found, present, _⟩ := Option.map_eq_some_iff.mp recorded
    rw [same] at present
    rw [restoreJob_of_present present]
    intro distinct
    rw [split, List.map_append, List.nodup_append] at distinct
    exact distinct.2.2 _ (List.mem_map_of_mem member) _ List.mem_cons_self same

/-- Jobs under different ids are restored, whatever their states. -/
theorem forEach_restoreJob (noJobs : NoJobs before) (ids : (records.map (·.id)).Nodup) :
    ∃ after, forEach restoreJob records before = .ok () after ∧ Rebuilt records before after := by
  have ends := (ends_forEach_restoreJob noJobs records).mono
    (fun _ _ restored => restored.2) (fun _ _ again => again ids) id
  obtain ⟨_, after, returns, rebuilt⟩ := ends.returns
  exact ⟨after, returns, rebuilt⟩

theorem restoreJobs_eq (protos : List JobProto) :
    restoreJobs protos = forEach restoreJob (protos.map newJobFromJobProto) := by
  unfold restoreJobs forEach
  rw [List.foldlM_map]

theorem restoreJobs_returns (noJobs : NoJobs before) {protos : List JobProto}
    (ids : ((protos.map newJobFromJobProto).map (·.id)).Nodup)
    (homes : ∀ record ∈ protos.map newJobFromJobProto, ∃ key, record.home = some key) :
    ∃ after, restoreJobs protos before = .ok () after ∧
      JobsRestored (protos.map newJobFromJobProto) before after := by
  obtain ⟨after, returns, rebuilt⟩ := forEach_restoreJob noJobs ids
  rw [← restoreJobs_eq] at returns
  exact ⟨after, returns, rebuilt.restored homes⟩

end Restore

/-! ## The jobs of a snapshot -/

/-- What a job becomes in a snapshot and back: its time to run and the size of
its body pass through 32 bits. -/
def Job.restored (job : Job) : Job :=
  { job with
    impl := .wrapJob
    ttr := job.ttr.toInt32.toInt64
    bodySize := job.bodySize.toInt32.toInt64 }

theorem toInt64_toInt32_of_range {n : Int64} (lower : -2 ^ 31 ≤ n.toInt)
    (upper : n.toInt < 2 ^ 31) : n.toInt32.toInt64 = n := by
  apply Int64.toInt_inj.mp
  rw [Int32.toInt_toInt64, Int64.toInt_toInt32]
  apply Int.bmod_eq_of_le <;> omega

theorem newJobFromJobProto_jobToJobProto (job : Job) :
    newJobFromJobProto (jobToJobProto job) = job.restored := by
  simp [newJobFromJobProto, jobToJobProto, Job.restored]

theorem Job.home_restored (job : Job) : job.restored.home = job.home :=
  rfl

section Snapshot

variable {kinds : Kinds} {jsm : JSM}

theorem map_id_filterMap_recordOf (inv : JobsOk kinds jsm) {ids : List JobID}
    (indexed : ∀ id ∈ ids, id ∈ jsm.jobs.keys) : (ids.filterMap jsm.recordOf).map (·.id) = ids := by
  induction ids with
  | nil => rfl
  | cons id ids induction =>
      obtain ⟨found, present⟩ := Option.isSome_iff_exists.mp
        ((mem_keys_iff _ _).mp (indexed id List.mem_cons_self))
      rw [List.filterMap_cons, jsm.recordOf_eq present, List.map_cons, inv.id_of_job present,
        induction fun other member => indexed other (List.mem_cons_of_mem _ member)]

theorem JobsOk.map_id_snapshotJobs (inv : JobsOk kinds jsm) (walk : JobWalk) :
    (jsm.snapshotJobs walk).map (·.id) = walk.visit jsm.jobs.keys :=
  map_id_filterMap_recordOf inv fun _ member => (walk.perm _).mem_iff.mp member

theorem JobsOk.mem_snapshotJobs (inv : JobsOk kinds jsm) (walk : JobWalk) (record : Job) :
    record ∈ jsm.snapshotJobs walk ↔ jsm.recordOf record.id = some record := by
  unfold JSM.snapshotJobs
  rw [List.mem_filterMap]
  constructor
  · intro emitted
    obtain ⟨id, _, recorded⟩ := emitted
    rw [inv.recordOf_id recorded]
    exact recorded
  · intro recorded
    refine ⟨record.id, (walk.perm _).mem_iff.mpr ?_, recorded⟩
    exact JSM.mem_keys_of_recordOf recorded

theorem JobsOk.find_snapshotJobs (inv : JobsOk kinds jsm) (walk : JobWalk) (id : JobID) :
    (jsm.snapshotJobs walk).find? (·.id = id) = jsm.recordOf id := by
  have ids : ((jsm.snapshotJobs walk).map (·.id)).Nodup := by
    rw [inv.map_id_snapshotJobs walk]
    exact (walk.perm _).nodup_iff.mpr jsm.jobs.keys_nodup
  cases recorded : jsm.recordOf id with
  | none =>
      rw [List.find?_eq_none]
      intro record member
      rw [inv.mem_snapshotJobs] at member
      suffices record.id ≠ id by simpa using this
      intro same
      rw [same, recorded] at member
      cases member
  | some record =>
      have sameId := inv.recordOf_id recorded
      have member : record ∈ jsm.snapshotJobs walk := by
        rw [inv.mem_snapshotJobs, sameId]
        exact recorded
      rw [← sameId]
      exact find_id_of_nodup ids member

theorem JobsOk.find_restored (inv : JobsOk kinds jsm) (walk : JobWalk) (id : JobID) :
    ((jsm.snapshotJobs walk).map Job.restored).find? (·.id = id) =
      (jsm.recordOf id).map Job.restored := by
  rw [List.find?_map]
  exact congrArg (Option.map Job.restored) (inv.find_snapshotJobs walk id)

theorem protos_newSnapshotFrom (walk : JobWalk) (jsm : JSM) :
    (jsm.newSnapshotFrom walk).jobs.map newJobFromJobProto =
      (jsm.snapshotJobs walk).map Job.restored := by
  unfold JSM.newSnapshotFrom
  rw [List.map_map]
  exact List.map_congr_left fun job _ => newJobFromJobProto_jobToJobProto job

/-- The jobs of a snapshot are restored, whatever the state of the target. -/
theorem restoreJobs_newSnapshotFrom (inv : JobsOk kinds jsm) (walk : JobWalk) {before : JSM}
    (noJobs : NoJobs before) :
    ∃ after, restoreJobs (jsm.newSnapshotFrom walk).jobs before = .ok () after ∧
      JobsRestored ((jsm.snapshotJobs walk).map Job.restored) before after := by
  rw [← protos_newSnapshotFrom]
  apply restoreJobs_returns noJobs
  · rw [protos_newSnapshotFrom, List.map_map]
    change ((jsm.snapshotJobs walk).map (·.id)).Nodup
    rw [inv.map_id_snapshotJobs walk]
    exact (walk.perm _).nodup_iff.mpr jsm.jobs.keys_nodup
  · rw [protos_newSnapshotFrom]
    intro record member
    obtain ⟨job, emitted, rfl⟩ := List.mem_map.mp member
    rw [job.home_restored]
    exact inv.exists_home ((inv.mem_snapshotJobs walk job).mp emitted)

end Snapshot

end Coolbeans
