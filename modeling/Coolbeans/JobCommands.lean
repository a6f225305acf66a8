import Coolbeans.CallOutcomes
import Coolbeans.JobNumbers

/-!
# The commands on single jobs

What each command on a job does to the records of the jobs, and that it keeps
the containers exact.  A failed command changes nothing that can be seen,
unless a container that it works on was not exact before.
-/

namespace Coolbeans

open FiniteMap PositionHeap StatefulProgram

variable {kinds : Kinds} {jsm : JSM} {id : JobID}

/-! ## Guards -/

/-- A client may act on a reserved job. -/
def Job.OwnedBy (job : Job) (clientID : ClientID) : Prop :=
  job.state = .reserved ∧ (clientID = [] ∨ job.reservedBy = clientID)

theorem decides_stateGuard (state : JobState) (found : IndexEntry) (record : Job) :
    Decides (stateGuard state found record) jsm (record.state = state) := by
  unfold Decides stateGuard
  rw [Prog.require_apply]
  split <;> simp_all

theorem decides_reservedGuard (error : Err) (clientID : ClientID) (found : IndexEntry)
    (record : Job) :
    Decides (reservedGuard error clientID found record) jsm (record.OwnedBy clientID) := by
  have owner : ¬ (0 < clientID.length ∧ record.reservedBy ≠ clientID) ↔
      clientID = [] ∨ record.reservedBy = clientID := by
    rw [List.length_pos_iff]
    tauto
  unfold Decides reservedGuard checkOwner Job.OwnedBy
  rw [← owner, Prog.bind_apply, Prog.require_apply]
  split
  next isReserved =>
    rw [Outcome.ok_andThen, Prog.require_apply]
    split
    next allowed => exact ⟨rfl, isReserved, allowed⟩
    next refused => exact ⟨rfl, fun owned => refused owned.2⟩
  next notReserved => exact ⟨rfl, fun owned => notReserved owned.1⟩

theorem decides_delayedGuard {found : IndexEntry} {entry : Nat} (named : found.entry = some entry)
    (record : Job) :
    Decides (delayedGuard found record) jsm
      (record.state = .delayed ∧ (jsm.entryAt entry).index = 0) := by
  unfold Decides delayedGuard
  rw [Prog.bind_apply, Prog.require_apply]
  split
  next isDelayed =>
    rw [Outcome.ok_andThen, IndexEntry.heapEntry, named, Prog.deref_some, Prog.bind_apply,
      Prog.pure_apply, Outcome.ok_andThen, Prog.gets_bind, Prog.require_apply]
    split <;> simp_all
  next => simp_all

/-! ## Transitions -/

theorem Job.kind_of_home {job : Job} {key : HeapKey} (home : job.home = some key) :
    (job.state = .ready → key.kind = .ready) ∧ (job.state = .delayed → key.kind = .delayed) ∧
      (job.state = .buried → key.kind = .buried) ∧
      (job.state = .reserved → key.kind = .reserved) := by
  unfold Job.home at home
  split at home <;> cases home <;> simp_all [HeapKey.kind]

/-- A transition that fails changes nothing that can be seen; the job, if there is one, was not
one to which it applies. -/
def Declined (kinds : Kinds) (kind : HeapKind) (applies : Job → Prop) (id : JobID)
    (before after : JSM) : Prop :=
  SameViews before after ∧
    (kinds.held kind → ∀ record, before.recordOf id = some record → ¬ applies record)

/-- A transition that asks only for the state of the job. -/
theorem ends_stateMove (inv : JobsOk kinds jsm) {state : JobState} {kind : HeapKind}
    {remove : Nat → JSMProg Nat} {change : Job → Job} {enqueue : Nat → JSMProg Nat}
    {keyOf : Job → HeapKey} (removes : Removes remove kind) (enters : Enters enqueue keyOf)
    (isKind : ∀ record key, record.state = state → Job.home record = some key → key.kind = kind)
    (keepsId : ∀ record, (change record).id = record.id)
    (fits : ∀ record, (change record).home = some (keyOf (change record))) :
    (moveJob id (stateGuard state) remove change enqueue jsm).Ends
      (fun _ after => ∃ record, record.state = state ∧
        Moved kinds id record (change record) jsm after ∧
        (kind ≠ .delayed → ∀ tubeName, jsm.hasTube tubeName = true →
          after.hasTube tubeName = true))
      (fun _ after => Declined kinds kind (·.state = state) id jsm after)
      (¬ kinds.held kind) := by
  refine (ends_moveJob inv (fun found => (jsm.jobAt found.job).state = state)
    (fun found _ => decides_stateGuard state found _) removes enters
    (fun found key passes home => isKind _ key passes home) keepsId
    (fun found _ _ => ⟨_, fits _, Or.inl rfl⟩)).mono ?_ ?_ (fun holds => holds)
  · rintro _ after ⟨found, present, passes, moved, tubes⟩
    exact ⟨_, passes, moved, tubes⟩
  · rintro _ after ⟨same, fails⟩
    refine ⟨same, fun isExact record recorded => ?_⟩
    obtain ⟨found, present, rfl⟩ := Option.map_eq_some_iff.mp recorded
    exact fails isExact found present

/-- A transition that a client asks for on a reserved job. -/
theorem ends_reservedMove (inv : JobsOk kinds jsm) {error : Err} {clientID : ClientID}
    {change : Job → Job} {enqueue : Nat → JSMProg Nat} {keyOf : Job → HeapKey}
    (enters : Enters enqueue keyOf) (keepsId : ∀ record, (change record).id = record.id)
    (fits : ∀ record, jsm.recordOf id = some record → record.OwnedBy clientID →
      ∃ home, (change record).home = some home ∧ (home = keyOf (change record) ∨
        ¬ kinds.held (keyOf (change record)).kind ∧ ¬ kinds.held home.kind)) :
    (moveJob id (reservedGuard error clientID) removeReservedJob change enqueue jsm).Ends
      (fun _ after => ∃ record, record.OwnedBy clientID ∧
        Moved kinds id record (change record) jsm after)
      (fun _ after => Declined kinds .reserved (·.OwnedBy clientID) id jsm after)
      (¬ kinds.held .reserved) := by
  refine (ends_moveJob inv (fun found => (jsm.jobAt found.job).OwnedBy clientID)
    (fun found _ => decides_reservedGuard error clientID found _) removes_removeReservedJob enters
    (fun found key passes home => (Job.kind_of_home home).2.2.2 passes.1) keepsId
    (fun found present passes => fits _ (JSM.recordOf_eq present) passes)).mono
    ?_ ?_ (fun holds => holds)
  · rintro _ after ⟨found, present, passes, moved, _⟩
    exact ⟨_, passes, moved⟩
  · rintro _ after ⟨same, fails⟩
    refine ⟨same, fun isExact record recorded => ?_⟩
    obtain ⟨found, present, rfl⟩ := Option.map_eq_some_iff.mp recorded
    exact fails isExact found present

theorem ends_fromReadyToReserved (inv : JobsOk kinds jsm) (nowSeconds : Int64)
    (clientID : ClientID) :
    (fromReadyToReserved nowSeconds id clientID jsm).Ends
      (fun _ after => ∃ record, record.state = .ready ∧
        Moved kinds id record (record.reservedFor nowSeconds clientID) jsm after ∧
        ∀ tubeName, jsm.hasTube tubeName = true → after.hasTube tubeName = true)
      (fun _ after => Declined kinds .ready (·.state = .ready) id jsm after)
      (¬ kinds.held .ready) := by
  refine (ends_stateMove inv removes_removeReadyJob (enters_enqueueReservedJob clientID)
    (fun record key isReady home => (Job.kind_of_home home).1 isReady)
    (fun record => by simp [Job.reservedFor])
    (fun record => by simp [Job.reservedFor, Job.home])).mono ?_ (fun _ _ holds => holds)
    (fun holds => holds)
  rintro _ after ⟨record, isReady, moved, tubes⟩
  exact ⟨record, isReady, moved, tubes (by simp)⟩

theorem ends_fromBuriedToReady (inv : JobsOk kinds jsm) :
    (fromBuriedToReady id jsm).Ends
      (fun _ after => ∃ record, record.state = .buried ∧
        Moved kinds id record record.kicked jsm after)
      (fun _ after => Declined kinds .buried (·.state = .buried) id jsm after) False := by
  refine (ends_stateMove inv removes_removeBuriedJob enters_enqueueReadyJob
    (fun record key isBuried home => (Job.kind_of_home home).2.2.1 isBuried)
    (fun record => by simp [Job.kicked])
    (fun record => by simp [Job.kicked, Job.home])).mono ?_ (fun _ _ holds => holds)
    (fun unheld => unheld kinds.held_buried)
  rintro _ after ⟨record, isBuried, moved, _⟩
  exact ⟨record, isBuried, moved⟩

theorem kick_returns (inv : JobsOk kinds jsm) {record : Job}
    (recorded : jsm.recordOf id = some record) (isBuried : record.state = .buried) :
    ∃ after, kick id jsm = .ok () after ∧ Moved kinds id record record.kicked jsm after := by
  have kicks : (kick id jsm).Ends
      (fun _ after => ∃ record, record.state = .buried ∧
        Moved kinds id record record.kicked jsm after) (fun _ _ => False) False := by
    exact (ends_fromBuriedToReady inv).mono (fun _ _ moves => moves)
      (fun _ _ fails => fails.2 kinds.held_buried record recorded isBuried) False.elim
  obtain ⟨_, after, returns, was, _, moved⟩ := kicks.returns
  have isRecord := moved.was
  rw [recorded] at isRecord
  cases isRecord
  exact ⟨after, returns, moved⟩

theorem ends_fromReservedToReady (inv : JobsOk kinds jsm) (clientID : ClientID) (pri : UInt32)
    (updatePri : Bool) :
    (fromReservedToReady id clientID pri updatePri jsm).Ends
      (fun _ after => ∃ record, record.OwnedBy clientID ∧
        Moved kinds id record (record.released pri updatePri) jsm after)
      (fun _ after => Declined kinds .reserved (·.OwnedBy clientID) id jsm after)
      (¬ kinds.held .reserved) := by
  refine ends_reservedMove inv enters_enqueueReadyJob
    (fun record => by cases updatePri <;> simp [Job.released]) fun record _ _ => ⟨_, ?_, Or.inl rfl⟩
  simp [Job.released, Job.home]

theorem ends_fromReservedToBuried (inv : JobsOk kinds jsm) (nowSeconds : Int64)
    (priority : UInt32) (clientID : ClientID) :
    (fromReservedToBuried nowSeconds id priority clientID jsm).Ends
      (fun _ after => ∃ record, record.OwnedBy clientID ∧
        Moved kinds id record (record.buriedWith nowSeconds priority) jsm after)
      (fun _ after => Declined kinds .reserved (·.OwnedBy clientID) id jsm after)
      (¬ kinds.held .reserved) := by
  refine ends_reservedMove inv enters_enqueueBuriedJob
    (fun record => by simp [Job.buriedWith]) fun record _ _ => ⟨_, ?_, Or.inl rfl⟩
  simp [Job.buriedWith, Job.home]

theorem getJob_apply (jsm : JSM) (id : JobID) :
    getJob id jsm =
      match jsm.recordOf id with
      | none => .err .entryMissing jsm
      | some record => .ok record jsm := by
  unfold getJob
  rw [Prog.bind_apply, JobIndex.get, JSM.recordOf]
  cases jsm.jobs.lookup id <;> rfl

theorem ends_fromReservedToDelayed (inv : JobsOk kinds jsm) (nowSeconds : Int64)
    (clientID : ClientID) (pri : UInt32) (delay : Int64) :
    (fromReservedToDelayed nowSeconds id clientID pri delay jsm).Ends
      (fun _ after => ∃ record middle, record.OwnedBy clientID ∧
        Moved kinds id record (record.releasedWithDelay nowSeconds pri delay) jsm middle ∧
        after = middle.lowerNextDelayTickAt (nowSeconds + delay))
      (fun _ after => Declined kinds .reserved (·.OwnedBy clientID) id jsm after)
      (¬ kinds.held .reserved) := by
  refine Prog.ends_bind (ends_reservedMove inv enters_enqueueDelayedJob
    (fun record => by simp [Job.releasedWithDelay]) fun record _ _ => ⟨_, ?_, Or.inl rfl⟩) ?_
  · simp [Job.releasedWithDelay, Job.home]
  rintro _ middle ⟨record, owned, moved⟩
  have recorded : middle.recordOf id =
      some (record.releasedWithDelay nowSeconds pri delay) := by
    rw [moved.records, if_pos rfl]
  rw [Prog.bind_apply, getJob_apply, recorded, Outcome.ok_andThen]
  refine ⟨record, middle, owned, moved, ?_⟩
  simp [Job.releasedWithDelay]

theorem ends_fromDelayedToReady (inv : JobsOk kinds jsm) :
    (fromDelayedToReady id jsm).Ends
      (fun _ after => ∃ record, record.state = .delayed ∧
        Moved kinds id record (record.updateState .ready) jsm after)
      (fun _ after => SameViews jsm after ∧
        (kinds.held .delayed → ∀ found entry, jsm.jobs.lookup id = some found →
          found.entry = some entry → (jsm.jobAt found.job).state = .delayed →
          (jsm.entryAt entry).index ≠ 0))
      (¬ kinds.held .delayed) := by
  refine (ends_moveJob inv
    (fun found => (jsm.jobAt found.job).state = .delayed ∧
      ∀ entry, found.entry = some entry → (jsm.entryAt entry).index = 0)
    (fun found present => ?_) removes_removeDelayedJob enters_enqueueReadyJob
    (fun found key passes home => (Job.kind_of_home home).2.1 passes.1)
    (fun record => by simp) (fun found _ _ => ⟨_, ?_, Or.inl rfl⟩)).mono ?_ ?_ (fun holds => holds)
  · obtain ⟨entry, _, named, _⟩ := inv.entered id found present (by simp)
    refine (decides_delayedGuard named _).mono ?_ ?_ (fun holds => holds)
    · rintro _ after ⟨rfl, isDelayed, first⟩
      refine ⟨rfl, isDelayed, fun other same => ?_⟩
      rw [named] at same
      cases same
      exact first
    · rintro _ after ⟨rfl, fails⟩
      exact ⟨rfl, fun passes => fails ⟨passes.1, passes.2 entry named⟩⟩
  · simp [Job.home]
  · rintro _ after ⟨found, present, passes, moved, _⟩
    exact ⟨_, passes.1, moved⟩
  · rintro _ after ⟨same, fails⟩
    refine ⟨same, fun isExact found entry present named isDelayed first => ?_⟩
    refine fails isExact found present ⟨isDelayed, fun other same => ?_⟩
    rw [named] at same
    cases same
    exact first

/-- The part of `Touch` that moves the job.  A touch that names no client files
the job under the empty name, so the reserved heaps stay exact only if that is
its owner. -/
theorem ends_touchMove (inv : JobsOk kinds jsm) (nowSeconds : Int64) (clientID : ClientID)
    (named : kinds.held .reserved → ∀ record, jsm.recordOf id = some record →
      record.OwnedBy clientID → record.reservedBy = clientID) :
    (moveJob id (reservedGuard .invalidOperation clientID) removeReservedJob
      (Job.updateReservation nowSeconds) (enqueueReservedJob clientID) jsm).Ends
      (fun _ after => ∃ record, record.OwnedBy clientID ∧
        Moved kinds id record (record.updateReservation nowSeconds) jsm after)
      (fun _ after => Declined kinds .reserved (·.OwnedBy clientID) id jsm after)
      (¬ kinds.held .reserved) := by
  refine ends_reservedMove inv (enters_enqueueReservedJob clientID) (fun record => by simp)
    fun record recorded owned => ⟨.reserved record.reservedBy, ?_, ?_⟩
  · simp [Job.home, owned.1]
  · by_cases isExact : kinds.held .reserved
    · exact Or.inl (by rw [named isExact record recorded owned])
    · exact Or.inr ⟨isExact, isExact⟩

/-! ## Delete -/

theorem JobInv.deleted {found : IndexEntry} {taken : JSM} (before : JobsOk kinds jsm)
    (present : jsm.jobs.lookup id = some found) (inv : JobInv kinds (some id) jsm.jobs taken)
    (jobs : taken.jobs = jsm.jobs.erase id) (jobAt : taken.jobAt = jsm.jobAt) :
    JobsOk kinds (taken.updateJob found.job
        fun job => (job.updateState .deleted).updateReservedBy []) ∧
      ∀ other, (taken.updateJob found.job
        fun job => (job.updateState .deleted).updateReservedBy []).recordOf other =
          if other = id then none else jsm.recordOf other := by
  have ownId := before.id_of_job present
  constructor
  · have erased : JobInv kinds (some id) taken.jobs taken := by
      rw [jobs]
      exact inv.eraseIndex
    refine JobInv.close (erased.updateJob ?_ ?_) ?_
    · rw [jobAt, ownId]
    · rw [jobAt]
      simpa using ownId
    · change taken.jobs.lookup id = none
      rw [jobs, lookup_erase, if_pos rfl]
  · intro other
    have sameJobs : (taken.updateJob found.job fun job =>
        (job.updateState .deleted).updateReservedBy []).jobs = jsm.jobs.erase id := jobs
    simp only [JSM.recordOf, sameJobs, lookup_erase]
    split
    next => rfl
    next different =>
      cases otherPresent : jsm.jobs.lookup other with
      | none => rfl
      | some otherFound =>
          have otherJob : otherFound.job ≠ found.job := by
            intro same
            apply different
            rw [← before.id_of_job otherPresent, same, ownId]
          simp [JSM.updateJob, otherJob, jobAt]

theorem BuriedInOrder.forgotten (ok : BuriedInOrder jsm) (id : JobID) :
    BuriedInOrder { jsm with jobs := jsm.jobs.erase id } := by
  refine ok.setJobs fun other found present => Or.inl ?_
  rw [lookup_erase] at present
  split at present
  · cases present
  · exact present

/-- The entry of a deleted job may stay on its buried heap. -/
theorem BuriedInOrder.deleted {found : IndexEntry} {taken : JSM} (ok : BuriedInOrder taken)
    (inv : JobsOk kinds jsm) (present : jsm.jobs.lookup id = some found)
    (jobs : taken.jobs = jsm.jobs.erase id) :
    BuriedInOrder (taken.updateJob found.job
      fun job => (job.updateState .deleted).updateReservedBy []) := by
  refine ok.updateUnindexed (fun other otherFound otherPresent same => ?_) _
  rw [jobs, lookup_erase] at otherPresent
  split at otherPresent
  · cases otherPresent
  next different =>
    apply different
    rw [← inv.id_of_job otherPresent, same, inv.id_of_job present]

/-- What a `Delete` that returns has done. -/
structure Deleted (kinds : Kinds) (id : JobID) (before after : JSM) : Prop where
  inv : JobsOk kinds after
  records : ∀ other, after.recordOf other = if other = id then none else before.recordOf other
  frame : JobFrame before after
  kept : JobsKept before after

/-- The branches of `Delete` that take the entry of the job out of a heap. -/
theorem ends_deleteFrom (inv : JobsOk kinds jsm) {found : IndexEntry}
    (present : jsm.jobs.lookup id = some found) {remove : Nat → JSMProg Nat} {kind : HeapKind}
    (removes : Removes remove kind) (notBuried : kind ≠ .buried)
    (isKind : ∀ key, (jsm.jobAt found.job).home = some key → key.kind = kind) :
    ((do
        let entry ← found.heapEntry
        let _ ← remove entry
        updateJob found.job fun job => (job.updateState .deleted).updateReservedBy [] :
      JSMProg Unit) { jsm with jobs := jsm.jobs.erase id }).Ends
      (fun _ after => Deleted kinds id jsm after)
      (fun _ after => ¬ kinds.held kind ∧ Deleted kinds id jsm after) (¬ kinds.held kind) := by
  obtain ⟨entry, key, named, _, entryJob, isHome, held⟩ := inv.entered id found present (by simp)
  have homeKind := isKind key isHome
  have invErased : JobInv kinds none jsm.jobs { jsm with jobs := jsm.jobs.erase id } :=
    inv.congr rfl rfl rfl rfl fun key => by cases key <;> rfl
  have heaps : ∀ key, JSM.heapAt { jsm with jobs := jsm.jobs.erase id } key = jsm.heapAt key :=
    fun key => by cases key <;> rfl
  have entryHome : (JSM.jobOf { jsm with jobs := jsm.jobs.erase id } entry).home = some key := by
    simp only [JSM.jobOf, entryJob]
    exact isHome
  rw [IndexEntry.heapEntry, named, Prog.deref_some, Prog.bind_apply, Prog.pure_apply,
    Outcome.ok_andThen]
  refine Prog.ends_bind ((removes _ entry key (invErased.tracked key) entryHome homeKind).mono
    (fun _ _ holds => holds) ?_ ?_) ?_
  · rintro _ failed ⟨same, missing⟩
    have notKind : ¬ kinds.held kind := by
      intro exactKind
      rw [heaps] at missing
      exact missing (held (homeKind ▸ exactKind))
    obtain ⟨jobs, jobAt, nextJob, _⟩ := JSM.fields_of_jobView same.jobs
    refine ⟨notKind, ?_, ?_, (JobFrame.setJobs jsm _).trans same.frame, nextJob.ge,
      fun numbered => (numbered.setJobs _).of_jobView same.jobs same.frame.maxJobID,
      fun buried => (buried.forgotten id).of_jobView same.jobs⟩
    · have opened := (invErased.open_of_not_kind present isHome fun isKind =>
        notKind (homeKind ▸ kinds.held_of_exact _ isKind)).eraseIndex
      unfold JobsOk
      rw [jobs]
      refine (JobInv.close opened ?_).of_sameViews same
      rw [lookup_erase, if_pos rfl]
    · intro other
      simp only [JSM.recordOf, jobs, jobAt, lookup_erase]
      split <;> rfl
  · intro missing exactKind
    rw [heaps] at missing
    exact missing (held (homeKind ▸ exactKind))
  · rintro left taken ⟨took, own, _⟩
    have opened : JobInv kinds (some id) jsm.jobs taken := by
      refine invErased.took present isHome took fun exactKind => ?_
      rw [heaps] at own
      rw [named, own (held exactKind)]
    obtain ⟨invAfter, records⟩ := JobInv.deleted inv present opened took.jobs took.jobAt
    exact ⟨invAfter, records, (JobFrame.setJobs jsm _).trans
      (took.frame.trans (.updateJob taken found.job _)), took.nextJob.ge,
      fun numbered => ((numbered.setJobs _).took took).updateJob (by simp),
      fun buried => ((buried.forgotten id).took took fun isBuried =>
        absurd (homeKind.symm.trans isBuried) notBuried).deleted inv present took.jobs⟩

theorem ends_delete (inv : JobsOk kinds jsm) (clientID : ClientID) (readyHeld : kinds.held .ready)
    (delayedHeld : kinds.held .delayed)
    (notBuried : kinds .buried → ∀ record, jsm.recordOf id = some record →
      record.state ≠ .buried) :
    (delete id clientID jsm).Ends
      (fun _ after => Deleted kinds id jsm after ∧ ∃ record, jsm.recordOf id = some record ∧
        (record.state = .reserved → record.reservedBy = clientID))
      (fun _ after => after = jsm ∧ (∀ record, jsm.recordOf id = some record →
          record.state = .reserved ∧ record.reservedBy ≠ clientID) ∨
        ¬ kinds.held .reserved ∧ Deleted kinds id jsm after)
      (¬ kinds.held .reserved) := by
  unfold delete
  rw [Prog.bind_apply, JobIndex.get]
  cases present : jsm.jobs.lookup id with
  | none =>
      refine Or.inl ⟨rfl, fun record recorded => ?_⟩
      simp [JSM.recordOf, present] at recorded
  | some found =>
  have recorded := JSM.recordOf_eq present
  rw [Outcome.ok_andThen, readJob_bind, Prog.bind_apply, Prog.require_apply]
  split
  swap
  next refused =>
    refine Or.inl ⟨rfl, fun record isRecord => ?_⟩
    rw [recorded] at isRecord
    cases isRecord
    exact Classical.not_not.mp refused
  next allowed =>
  have authorized : ∃ record, jsm.recordOf id = some record ∧
      (record.state = .reserved → record.reservedBy = clientID) := by
    refine ⟨_, recorded, fun isReserved => ?_⟩
    by_contra other
    exact allowed ⟨isReserved, other⟩
  rw [Outcome.ok_andThen, Prog.bind_apply, JobIndex.remove, present, Outcome.ok_andThen]
  cases state : (jsm.jobAt found.job).state with
  | ready =>
      refine (ends_deleteFrom inv present removes_removeReadyJob (by simp)
        fun key home => (Job.kind_of_home home).1 state).mono
        (fun _ _ deleted => ⟨deleted, authorized⟩) (fun _ _ failed => absurd readyHeld failed.1)
        (fun impossible => absurd readyHeld impossible)
  | delayed =>
      refine (ends_deleteFrom inv present removes_removeDelayedJob (by simp)
        fun key home => (Job.kind_of_home home).2.1 state).mono
        (fun _ _ deleted => ⟨deleted, authorized⟩) (fun _ _ failed => absurd delayedHeld failed.1)
        (fun impossible => absurd delayedHeld impossible)
  | reserved =>
      refine (ends_deleteFrom inv present removes_removeReservedJob (by simp)
        fun key home => (Job.kind_of_home home).2.2.2 state).mono
        (fun _ _ deleted => ⟨deleted, authorized⟩) (fun _ _ failed => Or.inr failed)
        (fun holds => holds)
  | initial | deleted =>
      obtain ⟨_, key, _, _, _, isHome, _⟩ := inv.entered id found present (by simp)
      simp [Job.home, state] at isHome
  | buried =>
      -- the entry of a buried job stays where it is
      obtain ⟨_, key, _, _, _, isHome, _⟩ := inv.entered id found present (by simp)
      have notKind : ¬ kinds key.kind := by
        intro exactKind
        rw [(Job.kind_of_home isHome).2.2.1 state] at exactKind
        exact notBuried exactKind _ recorded state
      have opened := inv.open_of_not_kind present isHome notKind
      have invErased : JobInv kinds (some id) jsm.jobs { jsm with jobs := jsm.jobs.erase id } :=
        opened.congr rfl rfl rfl rfl fun key => by cases key <;> rfl
      obtain ⟨invAfter, records⟩ := JobInv.deleted inv present invErased rfl rfl
      exact ⟨⟨invAfter, records, ⟨rfl, rfl, rfl⟩, Nat.le_refl _,
        fun numbered => (numbered.setJobs _).updateJob (by simp),
        fun buried => (buried.forgotten id).deleted inv present rfl⟩, authorized⟩

/-! ## Put -/

/-- A new job has been indexed and has entered its heap. -/
structure Added (kinds : Kinds) (id : JobID) (record : Job) (before after : JSM) :
    Prop where
  inv : JobsOk kinds after
  absent : before.recordOf id = none
  records : ∀ other, after.recordOf other =
    if other = id then some record else before.recordOf other
  frame : JobFrame before after

/-- A job that the index does not know yet is indexed, changed and entered, and the buried heaps
stay in order. -/
theorem BuriedInOrder.added {job entry : Nat} {change : Job → Job} {key : HeapKey} {after : JSM}
    (ok : BuriedInOrder jsm) (inv : JobsOk kinds jsm)
    (unindexed : ∀ id found, jsm.jobs.lookup id = some found → found.job ≠ job)
    (unlisted : BuriedInOrder.Unlisted job jsm) (bound : job < jsm.nextJob)
    (home : (change (jsm.jobAt job)).home = some key)
    (into : Entered key job entry
      (JSM.updateJob job change { jsm with jobs := jsm.jobs.insert id ⟨job, none⟩ }) after) :
    BuriedInOrder { after with jobs := after.jobs.insert id ⟨job, some entry⟩ } := by
  have indexed : BuriedInOrder { jsm with jobs := jsm.jobs.insert id ⟨job, none⟩ } := by
    refine ok.setJobs fun other found present => ?_
    rw [lookup_insert] at present
    split at present
    · cases present
      exact Or.inr unlisted
    · exact Or.inl present
  refine (indexed.updateJob unlisted change).entered bound unlisted
    (fun tubeName => inv.allocated (.buried tubeName)) ?_ into ?_
  · intro other found present isJob
    change (jsm.jobs.insert id ⟨job, none⟩).lookup other = _ at present
    rw [lookup_insert] at present
    split at present
    next same => exact same
    next => exact absurd isJob (unindexed other found present)
  · rintro tubeName rfl
    simpa only [JSM.updateJob, if_true] using home

/-- A job that the index does not know yet is indexed, changed and entered. -/
theorem added_of_entered {job entry : Nat} {change : Job → Job} {key : HeapKey} {after : JSM}
    (inv : JobsOk kinds jsm) (unindexed : ∀ id found, jsm.jobs.lookup id = some found →
      found.job ≠ job) (bound : job < jsm.nextJob) (sameId : (jsm.jobAt job).id = id)
    (absent : jsm.jobs.lookup id = none) (keepsId : (change (jsm.jobAt job)).id = id)
    (home : (change (jsm.jobAt job)).home = some key)
    (into : Entered key job entry
      (JSM.updateJob job change { jsm with jobs := jsm.jobs.insert id ⟨job, none⟩ }) after) :
    Added kinds id (change (jsm.jobAt job)) jsm
      { after with jobs := after.jobs.insert id ⟨job, some entry⟩ } := by
  have indexed := inv.insertIndex absent sameId bound
  have inHole : JobInv kinds (some id) (jsm.jobs.insert id ⟨job, none⟩)
      (JSM.updateJob job change { jsm with jobs := jsm.jobs.insert id ⟨job, none⟩ }) := by
    have indexedState : JobInv kinds (some id) (jsm.jobs.insert id ⟨job, none⟩)
        { jsm with jobs := jsm.jobs.insert id ⟨job, none⟩ } :=
      indexed.congr rfl rfl rfl rfl fun key => by cases key <;> rfl
    exact indexedState.updateJob sameId keepsId
  obtain ⟨invAfter, records⟩ := inHole.closed ⟨job, none⟩
    (by simp [JSM.updateJob, lookup_insert]) (by simpa [JSM.updateJob] using home)
    (Or.inl rfl) into
  refine ⟨invAfter, by simp [JSM.recordOf, absent], fun other => ?_, ?_⟩
  · rw [records]
    split
    next => simp [JSM.updateJob]
    next different =>
      simp only [JSM.recordOf, JSM.updateJob, lookup_insert, if_neg different]
      cases present : jsm.jobs.lookup other with
      | none => rfl
      | some found => simp [unindexed other found present]
  · exact (JobFrame.setJobs jsm _).trans
      ((JobFrame.updateJob _ job change).trans (into.frame.trans (.setJobs after _)))

theorem ends_fromInitialTo (inv : JobsOk kinds jsm) {job : Nat} (unindexed : ∀ id found,
      jsm.jobs.lookup id = some found → found.job ≠ job) (bound : job < jsm.nextJob)
    {state : JobState} {enqueue : Nat → JSMProg Nat} {keyOf : Job → HeapKey}
    (enters : Enters enqueue keyOf) (isInitial : (jsm.jobAt job).state = .initial)
    (fits : ∀ record : Job, (record.updateState state).home =
      some (keyOf (record.updateState state))) :
    (fromInitialTo state enqueue job jsm).Ends
      (fun _ after =>
        Added kinds (jsm.jobAt job).id ((jsm.jobAt job).updateState state) jsm after ∧
        jsm.nextJob ≤ after.nextJob ∧ (Numbered jsm → Numbered after) ∧
        (BuriedInOrder jsm → BuriedInOrder.Unlisted job jsm → BuriedInOrder after))
      (fun _ after => after = jsm ∧ jsm.recordOf (jsm.jobAt job).id ≠ none) False := by
  unfold fromInitialTo
  rw [readJob_bind, Prog.bind_apply, Prog.require_apply, if_pos isInitial, Outcome.ok_andThen,
    Prog.bind_apply, JobIndex.add]
  cases absent : jsm.jobs.lookup (jsm.jobAt job).id with
  | some found => exact ⟨rfl, by simp [JSM.recordOf, absent]⟩
  | none =>
  dsimp only
  rw [Outcome.ok_andThen, Prog.bind_apply, updateJob, Prog.modify_apply, Outcome.ok_andThen]
  refine Prog.ends_bind ((enters _ job).mono (fun _ _ holds => holds) (fun _ _ => False.elim)
    False.elim) ?_
  rintro entry after ⟨into, _⟩
  have record : (JSM.updateJob job (Job.updateState state)
      { jsm with jobs := jsm.jobs.insert (jsm.jobAt job).id ⟨job, none⟩ }).jobAt job =
        (jsm.jobAt job).updateState state := by
    simp [JSM.updateJob]
  rw [record] at into
  exact ⟨added_of_entered inv unindexed bound rfl absent (by simp) (fits _) into,
    into.nextJob.ge,
    fun numbered => (((numbered.setJobs _).updateJob (by simp)).entered bound into).setJobs _,
    fun buried unlisted => buried.added inv unindexed unlisted bound (fits _) into⟩

theorem recordOf_allocJob (inv : JobsOk kinds jsm) (record : Job) (other : JobID) :
    (jsm.allocJob record).recordOf other = jsm.recordOf other := by
  simp only [JSM.recordOf, JSM.allocJob]
  cases present : jsm.jobs.lookup other with
  | none => rfl
  | some found =>
      have := (inv.indexed other found present).2
      have old : found.job ≠ jsm.nextJob := by omega
      simp [old]

theorem JSM.lowerNextDelayTickAt_eq (readyAt : Int64) (jsm : JSM) :
    jsm.lowerNextDelayTickAt readyAt =
      { jsm with
        nextDelayTickAt :=
          if readyAt < jsm.nextDelayTickAt then readyAt else jsm.nextDelayTickAt } := by
  unfold JSM.lowerNextDelayTickAt
  split <;> rfl

/-- The state in which `NewJob` enters the new job. -/
def JSM.withNewJob (record : JobID → Job) (nextDelayTickAt : Int64) (jsm : JSM) : JSM :=
  JSM.allocJob (record (jsm.maxJobID + 1))
    { jsm with maxJobID := jsm.maxJobID + 1, nextDelayTickAt := nextDelayTickAt }

theorem JobsKept.withNewJob {record : JobID → Job} (recordId : ∀ id, (record id).id = id)
    (nextDelayTickAt : Int64) : JobsKept jsm (jsm.withNewJob record nextDelayTickAt) := by
  refine ⟨Nat.le_succ _, fun numbered => ?_, fun buried => ?_⟩
  · have highest : jsm.maxJobID + 1 = UInt64.ofNat (jsm.nextJob + 1) := by
      rw [numbered.highest, UInt64.ofNat_add]
      rfl
    refine ⟨fun job bound => ?_, highest, fun entry bound => ?_⟩
    · simp only [JSM.withNewJob, JSM.allocJob] at bound ⊢
      split
      next isNew => rw [recordId, isNew, highest]
      next old => exact numbered.ids job (by omega)
    · exact Nat.lt_succ_of_lt (numbered.entries entry bound)
  · have bumped : BuriedInOrder
        { jsm with maxJobID := jsm.maxJobID + 1, nextDelayTickAt := nextDelayTickAt } :=
      buried.of_jobView rfl
    exact bumped.allocJob _

/-- What `Put` does, whether or not the id it takes is free. -/
structure PutDone (kinds : Kinds) (nextDelayTickAt : Int64) (before after : JSM) :
    Prop where
  inv : JobsOk kinds after
  clients : after.clientView = before.clientView
  maxJobID : after.maxJobID = before.maxJobID + 1
  nextDelayTickAt : after.nextDelayTickAt = nextDelayTickAt
  kept : JobsKept before after

theorem ends_enterNewJob (inv : JobsOk kinds jsm) {record : JobID → Job}
    (recordId : ∀ id, (record id).id = id) (isInitial : ∀ id, (record id).state = .initial)
    (nextDelayTickAt : Int64) {state : JobState} {enqueue : Nat → JSMProg Nat}
    {keyOf : Job → HeapKey} (enters : Enters enqueue keyOf)
    (fits : ∀ record : Job, (record.updateState state).home =
      some (keyOf (record.updateState state))) :
    (fromInitialTo state enqueue jsm.nextJob (jsm.withNewJob record nextDelayTickAt)).Ends
      (fun _ after => jsm.recordOf (jsm.maxJobID + 1) = none ∧
        PutDone kinds nextDelayTickAt jsm after ∧
        ∀ other, after.recordOf other =
          if other = jsm.maxJobID + 1 then
            some ((record (jsm.maxJobID + 1)).updateState state)
          else jsm.recordOf other)
      (fun _ after => jsm.recordOf (jsm.maxJobID + 1) ≠ none ∧
        PutDone kinds nextDelayTickAt jsm after ∧
        ∀ other, after.recordOf other = jsm.recordOf other)
      False := by
  have invBumped : JobsOk kinds
      { jsm with maxJobID := jsm.maxJobID + 1, nextDelayTickAt := nextDelayTickAt } :=
    inv.congr rfl rfl rfl rfl fun key => by cases key <;> rfl
  have invNew : JobsOk kinds (jsm.withNewJob record nextDelayTickAt) := invBumped.allocJob _
  have unindexed : ∀ id found, (jsm.withNewJob record nextDelayTickAt).jobs.lookup id = some found →
      found.job ≠ jsm.nextJob := by
    intro id found present
    have := (inv.indexed id found present).2
    omega
  have recordAt : (jsm.withNewJob record nextDelayTickAt).jobAt jsm.nextJob =
      record (jsm.maxJobID + 1) := by
    simp [JSM.withNewJob, JSM.allocJob]
  have records : ∀ other,
      (jsm.withNewJob record nextDelayTickAt).recordOf other = jsm.recordOf other :=
    recordOf_allocJob invBumped _
  have keptNew : JobsKept jsm (jsm.withNewJob record nextDelayTickAt) := .withNewJob recordId _
  have entered := ends_fromInitialTo invNew unindexed (Nat.lt_succ_self jsm.nextJob) enters
    (by rw [recordAt, isInitial]) fits
  rw [recordAt, recordId] at entered
  refine entered.mono ?_ ?_ False.elim
  · rintro _ after ⟨added, grows, keepsNumbers, keepsBuried⟩
    refine ⟨?_, ⟨added.inv, added.frame.clients, added.frame.maxJobID,
      added.frame.nextDelayTickAt, keptNew.nextJob.trans grows,
      fun numbered => keepsNumbers (keptNew.numbered numbered), fun buried => ?_⟩, ?_⟩
    · rw [← records]
      exact added.absent
    · exact keepsBuried (keptNew.buried buried) fun tubeName entry member =>
        Nat.ne_of_lt (buried.allocated tubeName entry member)
    · intro other
      rw [added.records, records]
  · rintro _ after ⟨rfl, taken⟩
    rw [records] at taken
    exact ⟨taken, ⟨invNew, rfl, rfl, rfl, keptNew⟩, records⟩

/-- The clock of the next delay tick after a `Put`. -/
def JSM.delayTickAfterPut (jsm : JSM) (nowSeconds delay : Int64) : Int64 :=
  if 0 < delay ∧ nowSeconds + delay < jsm.nextDelayTickAt then nowSeconds + delay
  else jsm.nextDelayTickAt

theorem put_apply (jsm : JSM) (nowSeconds : Int64) (priority : UInt32)
    (delay ttr bodySize : Int64) (body : Option Bytes) (tubeName : TubeName) :
    put nowSeconds priority delay ttr bodySize body tubeName jsm =
      (do
        (if 0 < delay then fromInitialToDelayed jsm.nextJob else fromInitialToReady jsm.nextJob)
        pure (jsm.maxJobID + 1) : JSMProg JobID)
        (jsm.withNewJob
          (fun id => .initial id nowSeconds priority delay ttr bodySize body tubeName)
          (jsm.delayTickAfterPut nowSeconds delay)) := by
  have unfolded : put nowSeconds priority delay ttr bodySize body tubeName jsm =
      (if 0 < delay then do
          Prog.modify (JSM.lowerNextDelayTickAt (nowSeconds + delay))
          fromInitialToDelayed jsm.nextJob
          pure (jsm.maxJobID + 1)
        else do
          fromInitialToReady jsm.nextJob
          pure (jsm.maxJobID + 1) : JSMProg JobID)
        (jsm.withNewJob
          (fun id => .initial id nowSeconds priority delay ttr bodySize body tubeName)
          jsm.nextDelayTickAt) :=
    rfl
  rw [unfolded]
  by_cases isDelayed : 0 < delay
  · simp only [isDelayed, if_true, true_and, JSM.delayTickAfterPut, Prog.bind_apply,
      Prog.modify_apply, Outcome.ok_andThen, JSM.lowerNextDelayTickAt_eq]
    rfl
  · simp only [isDelayed, if_false, false_and, JSM.delayTickAfterPut]

theorem ends_put (inv : JobsOk kinds jsm) (nowSeconds : Int64) (priority : UInt32)
    (delay ttr bodySize : Int64) (body : Option Bytes) (tubeName : TubeName) :
    (put nowSeconds priority delay ttr bodySize body tubeName jsm).Ends
      (fun id after => id = jsm.maxJobID + 1 ∧ jsm.recordOf id = none ∧
        PutDone kinds (jsm.delayTickAfterPut nowSeconds delay) jsm after ∧
        ∀ other, after.recordOf other =
          if other = id then
            some ((Job.initial id nowSeconds priority delay ttr bodySize body tubeName).updateState
              (if 0 < delay then .delayed else .ready))
          else jsm.recordOf other)
      (fun _ after => jsm.recordOf (jsm.maxJobID + 1) ≠ none ∧
        PutDone kinds (jsm.delayTickAfterPut nowSeconds delay) jsm after ∧
        ∀ other, after.recordOf other = jsm.recordOf other)
      False := by
  rw [put_apply]
  by_cases isDelayed : 0 < delay
  · simp only [isDelayed, if_true]
    refine Prog.ends_bind (ends_enterNewJob inv (fun _ => rfl) (fun _ => rfl) _
      enters_enqueueDelayedJob fun record => by simp [Job.home]) ?_
    rintro _ after ⟨absent, done, records⟩
    exact ⟨rfl, absent, done, records⟩
  · simp only [isDelayed, if_false]
    refine Prog.ends_bind (ends_enterNewJob inv (fun _ => rfl) (fun _ => rfl) _
      enters_enqueueReadyJob fun record => by simp [Job.home]) ?_
    rintro _ after ⟨absent, done, records⟩
    exact ⟨rfl, absent, done, records⟩

/-! ## Peeks and kicks -/

/-- Some buried jobs have been kicked; nothing else has changed. -/
structure KickedSome (kinds : Kinds) (before after : JSM) : Prop where
  inv : JobsOk kinds after
  records : ∀ id, after.recordOf id = before.recordOf id ∨
    ∃ record, before.recordOf id = some record ∧ record.state = .buried ∧
      after.recordOf id = some record.kicked
  frame : JobFrame before after

theorem KickedSome.refl (inv : JobsOk kinds jsm) : KickedSome kinds jsm jsm :=
  ⟨inv, fun _ => Or.inl rfl, .refl jsm⟩

theorem KickedSome.step {first second third : JSM} {record : Job}
    (kicked : KickedSome kinds first second) (isBuried : record.state = .buried)
    (moved : Moved kinds id record record.kicked second third) : KickedSome kinds first third := by
  refine ⟨moved.inv, fun other => ?_, kicked.frame.trans moved.frame⟩
  rw [moved.records]
  split
  next same =>
    subst other
    right
    rcases kicked.records id with unchanged | ⟨old, _, _, now⟩
    · exact ⟨record, by rw [← unchanged, moved.was], isBuried, rfl⟩
    · rw [moved.was] at now
      cases now
      simp [Job.kicked] at isBuried
  next => exact kicked.records other

theorem ends_kickLoop (tubeName : TubeName) (rounds : Nat) (count : Int64) {start : JSM}
    (kicked : KickedSome kinds start jsm) :
    (kickLoop tubeName rounds count jsm).Ends
      (fun _ after => KickedSome kinds start after)
      (fun _ after => KickedSome kinds start after ∧ ¬ kinds .buried) False := by
  induction rounds generalizing count jsm with
  | zero => exact kicked
  | succ rounds ih =>
      cases head : (jsm.heapAt (.buried tubeName)).head? with
      | none =>
          rw [kickLoop_of_none head]
          exact kicked
      | some entry =>
      rw [kickLoop_of_some head]
      refine Prog.ends_bind ((ends_fromBuriedToReady kicked.inv).mono (fun _ _ holds => holds)
        ?_ (fun holds => holds)) ?_
      · rintro _ failed ⟨same, fails⟩
        refine ⟨⟨JobsOk.of_sameViews kicked.inv same, ?_, kicked.frame.trans same.frame⟩, ?_⟩
        · rw [same.recordOf]
          exact kicked.records
        · intro isExact
          obtain ⟨recorded, home⟩ := JobsOk.recordOf_jobOf kicked.inv (.buried tubeName)
            isExact (List.mem_of_head? head)
          exact fails kinds.held_buried _ recorded ((Job.home_eq_buried_iff _ _).mp home).1
      · rintro _ middle ⟨record, isBuried, moved⟩
        exact ih (count + 1) (kicked.step isBuried moved)

theorem ends_kickN (inv : JobsOk kinds jsm) (tubeName : TubeName) (n : Int64) :
    (kickN tubeName n jsm).Ends
      (fun _ after => KickedSome kinds jsm after)
      (fun _ after => KickedSome kinds jsm after ∧ ¬ kinds .buried) False :=
  ends_kickLoop tubeName _ 0 (.refl inv)

end Coolbeans
