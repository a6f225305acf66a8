import Coolbeans.ReservedHeaps

/-!
# Operations that fail

An operation on a job takes the job out of one container, changes it and enters it into
another, with error returns between the steps.  An error of the removal comes before any
write, so the transitions fail without a trace.  `Delete` forgets the job before it removes
its entry, and `Touch` looks for the client after it has moved the job: these two can leave
a changed state behind an error.
-/

namespace Coolbeans

open FiniteMap PositionHeap StatefulProgram

/-! ## Errors without a trace -/

theorem failsClean_removeAt {inv : JSM → Prop} (key : HeapKey) (entry : Nat) :
    Prog.FailsClean inv (removeAt key entry) := by
  intro jsm _
  unfold removeAt
  dsimp only
  split
  · exact rfl
  split
  · trivial
  split
  · trivial
  split
  · exact rfl
  · trivial

theorem failsClean_removeBuriedJob (entry : Nat) :
    Prog.FailsClean ReservedFilled (removeBuriedJob entry) :=
  Prog.FailsClean.of_reads (fun _ => Prog.keeps_gets _) fun tubeName =>
    Prog.FailsClean.of_reads (fun _ => keeps_getByName_false tubeName) fun _ =>
      failsClean_removeAt _ entry

/-! ### Clients -/

theorem neverFails_updateClientTickAt (cli : CliPtr) :
    Prog.NeverFails (updateClientTickAt cli) := by
  have fixes : ∀ cli, Prog.NeverFails (clientHeapFix cli) := by
    intro cli jsm
    unfold clientHeapFix
    dsimp only
    split <;> trivial
  have schedules : ∀ nextTickAt, Prog.NeverFails (scheduleClient cli nextTickAt) := by
    intro nextTickAt
    refine (Prog.neverFails_gets _).bind fun record => ?_
    split
    · exact (Prog.neverFails_modify _).bind fun _ => Prog.neverFails_modify _
    · exact (Prog.neverFails_modify _).bind fun _ => fixes cli
  have unschedules : ∀ nextTickAt, Prog.NeverFails (unscheduleClient cli nextTickAt) := by
    intro nextTickAt
    refine (Prog.neverFails_gets _).bind fun record => ?_
    split
    · refine (Prog.neverFails_attempt _).bind fun removed => ?_
      split
      · exact Prog.neverFails_crash _
      · refine (Prog.neverFails_attempt _).bind fun forgotten => ?_
        split
        · exact Prog.neverFails_modify _
        · exact Prog.neverFails_crash _
        · exact Prog.neverFails_modify _
    · exact Prog.neverFails_modify _
  refine (Prog.neverFails_gets _).bind fun record => (Prog.neverFails_attempt _).bind
    fun peeked => ?_
  split
  · dsimp only
    split
    · exact schedules _
    · exact unschedules _
  · exact Prog.neverFails_crash _
  · refine (Prog.neverFails_gets _).bind fun job => ?_
    dsimp only
    split
    · exact schedules _
    · exact unschedules _

theorem neverFails_firstMatch (nowSecs : Int64) (cli : CliPtr) (tubeNames : List TubeName) :
    Prog.NeverFails (firstMatch nowSecs cli tubeNames) := by
  induction tubeNames with
  | nil => exact Prog.neverFails_pure none
  | cons tubeName tubeNames induction =>
      refine (Prog.neverFails_attempt _).bind fun tried => ?_
      split
      · exact induction
      · exact Prog.neverFails_crash _
      · exact Prog.neverFails_pure _

theorem neverFails_joinWaitQ (cli : CliPtr) (tubeName : TubeName) :
    Prog.NeverFails (joinWaitQ cli tubeName) := by
  refine (Prog.neverFails_attempt _).bind fun joined => ?_
  split
  · exact Prog.neverFails_crash _
  · exact Prog.neverFails_pure _

theorem failsClean_registerClient {inv : JSM → Prop} (clientId : ClientID) (reqID : ReqID)
    (watchedTubes : List TubeName) (resvDeadlineAt : Int64) :
    Prog.FailsClean inv (registerClient clientId reqID watchedTubes resvDeadlineAt) := by
  intro jsm _
  have registers := registers_registerClient clientId reqID watchedTubes resvDeadlineAt jsm
  cases outcome : registerClient clientId reqID watchedTubes resvDeadlineAt jsm with
  | ok cli after => trivial
  | err error after =>
      rw [outcome] at registers
      cases registers
      exact rfl
  | panic cause => trivial

theorem failsClean_appendReservation {inv : JSM → Prop} (clientId : ClientID) (reqID : ReqID)
    (watchedTubes : List TubeName) (nowSecs resvDeadlineAt : Int64) :
    Prog.FailsClean inv
      (appendReservation clientId reqID watchedTubes nowSecs resvDeadlineAt) := by
  refine Prog.FailsClean.of_reads (fun _ => Prog.keeps_require _ _) fun _ =>
    (failsClean_registerClient clientId reqID watchedTubes resvDeadlineAt).bind fun cli =>
    (Prog.neverFails_foldlM watchedTubes () fun _ => neverFails_joinWaitQ cli).bind fun _ =>
    (neverFails_firstMatch nowSecs cli watchedTubes).bind fun result => ?_
  split
  · exact Prog.neverFails_pure _
  · exact (neverFails_updateClientTickAt cli).bind fun _ => Prog.neverFails_pure _

/-! ## The index after a move -/

theorem cleanup_fields (jsm : JSM) (tubeName : TubeName) :
    (jsm.cleanup tubeName).jobs = jsm.jobs ∧ (jsm.cleanup tubeName).nextEntry = jsm.nextEntry := by
  unfold JSM.cleanup
  split
  · exact ⟨rfl, rfl⟩
  · split <;> exact ⟨rfl, rfl⟩

theorem dropReserved_fields (jsm : JSM) (clientID : ClientID) :
    (jsm.dropReserved clientID).jobs = jsm.jobs ∧
      (jsm.dropReserved clientID).nextEntry = jsm.nextEntry := by
  unfold JSM.dropReserved
  split <;> exact ⟨rfl, rfl⟩

/-- A removal from a heap leaves the index as it is, and allocates nothing. -/
theorem heapClosed_of_fields {inv : JSM → Prop}
    (congr : ∀ before after : JSM, after.jobs = before.jobs →
      after.nextEntry = before.nextEntry → inv before → inv after) : HeapClosed inv where
  putHeap jsm key heap := congr _ _ (jsm.setHeap_fields key heap.items).1
    (jsm.setHeap_fields key heap.items).2.2.2.1
  cleanup jsm tubeName := congr _ _ (cleanup_fields jsm tubeName).1 (cleanup_fields jsm tubeName).2
  dropReserved jsm clientID := congr _ _ (dropReserved_fields jsm clientID).1
    (dropReserved_fields jsm clientID).2

/-- At least so many heap entries have been allocated. -/
def EntriesFrom (bound : Nat) (jsm : JSM) : Prop :=
  bound ≤ jsm.nextEntry

theorem heapClosed_entriesFrom (bound : Nat) : HeapClosed (EntriesFrom bound) :=
  heapClosed_of_fields fun _ _ _ nextEntry holds => holds.trans nextEntry.symm.le

/-- The job is not indexed. -/
def Forgotten (jobID : JobID) (jsm : JSM) : Prop :=
  jsm.jobs.lookup jobID = none

theorem heapClosed_forgotten (jobID : JobID) : HeapClosed (Forgotten jobID) :=
  heapClosed_of_fields fun _ _ jobs _ holds => by
    rw [Forgotten, jobs]
    exact holds

/-- The index names a heap entry that was not there before. -/
def Reindexed (jobID : JobID) (before after : JSM) : Prop :=
  ∃ job entry, after.jobs.lookup jobID = some ⟨job, some entry⟩ ∧ before.nextEntry ≤ entry

theorem ends_enqueueAt_fresh (key : HeapKey) (job : Nat) (jsm : JSM) :
    (enqueueAt key job jsm).Ends (fun entry _ => jsm.nextEntry ≤ entry) (fun _ _ => False)
      True :=
  Nat.le_refl jsm.nextEntry

theorem ends_enqueueTubeJob_fresh (key : TubeName → HeapKey) (job : Nat) (jsm : JSM) :
    (enqueueTubeJob key job jsm).Ends (fun entry _ => jsm.nextEntry ≤ entry) (fun _ _ => False)
      True := by
  have same : ∀ tubeName, (jsm.createTube tubeName).nextEntry = jsm.nextEntry := by
    intro tubeName
    unfold JSM.createTube
    split <;> rfl
  exact (same _).symm.le

theorem neverFails_enqueueTubeJob (key : TubeName → HeapKey) (job : Nat) :
    Prog.NeverFails (enqueueTubeJob key job) :=
  fun jsm => (ends_enqueueTubeJob_fresh key job jsm).mono (fun _ _ _ => trivial) (fun _ _ => id) id

/-! ## Jobs that leave a reserved heap -/

/-- The job is reserved, the client may act on it, and it stands in the heap of its owner. -/
def JSM.CanTouch (jsm : JSM) (jobID : JobID) (clientID : ClientID) : Prop :=
  ∃ found entry, jsm.jobs.lookup jobID = some found ∧ found.entry = some entry ∧
    (jsm.jobAt found.job).OwnedBy clientID ∧ jsm.StandsReserved entry

/-- A reserved job goes to another heap exactly if it can be touched. -/
theorem ReservedFilled.ends_leaveReserved {jsm : JSM} (filled : ReservedFilled jsm)
    {enqueue : Nat → JSMProg Nat}
    (enqueues : ∀ job jsm, (enqueue job jsm).Ends (fun entry _ => jsm.nextEntry ≤ entry)
      (fun _ _ => False) True)
    (error : Err) (jobID : JobID) (clientID : ClientID) (change : Job → Job) :
    (moveJob jobID (reservedGuard error clientID) removeReservedJob change enqueue jsm).Ends
      (fun _ after => jsm.CanTouch jobID clientID ∧ Reindexed jobID jsm after)
      (fun _ after => after = jsm ∧ ¬ jsm.CanTouch jobID clientID) True := by
  unfold moveJob
  rw [Prog.bind_apply, JobIndex.get]
  cases present : jsm.jobs.lookup jobID with
  | none =>
      refine ⟨rfl, ?_⟩
      rintro ⟨found, _, again, _⟩
      rw [present] at again
      cases again
  | some found =>
  have isFound : ∀ other, jsm.jobs.lookup jobID = some other → found = other := by
    intro other again
    exact Option.some.inj (present.symm.trans again)
  dsimp only
  rw [Outcome.ok_andThen, readJob_bind]
  refine Prog.ends_bind ((decides_reservedGuard error clientID found _).mono
    (fun _ _ passes => passes) ?_ False.elim) ?_
  · rintro _ after ⟨rfl, refuses⟩
    refine ⟨rfl, ?_⟩
    rintro ⟨other, _, again, _, owned, _⟩
    exact refuses (isFound other again ▸ owned)
  rintro _ after ⟨rfl, owned⟩
  unfold IndexEntry.heapEntry
  cases named : found.entry with
  | none => trivial
  | some entry =>
      rw [Prog.deref_some, Prog.bind_apply, Prog.pure_apply, Outcome.ok_andThen]
      have allocates := (heapClosed_entriesFrom after.nextEntry).keeps_removeReservedJob entry after
        (Nat.le_refl after.nextEntry)
      refine Prog.ends_bind (((filled.ends_removeReservedJob entry).and allocates).mono
        (fun _ _ taken => taken) ?_ fun _ => trivial) ?_
      · rintro _ _ ⟨⟨rfl, misses⟩, _⟩
        refine ⟨rfl, ?_⟩
        rintro ⟨other, ownEntry, again, isEntry, _, stands⟩
        rw [← isFound other again, named] at isEntry
        exact misses (Option.some.inj isEntry ▸ stands)
      · rintro _ taken ⟨⟨_, stands⟩, bound⟩
        rw [Prog.bind_apply, updateJob, Prog.modify_apply, Outcome.ok_andThen]
        refine Prog.ends_bind ((enqueues found.job _).mono
          (fun entry _ fresh => (Nat.le_trans bound fresh : after.nextEntry ≤ entry))
          (fun _ _ => False.elim) id) fun newEntry _ fresh => ?_
        exact ⟨⟨found, entry, present, named, owned, stands⟩, found.job, newEntry,
          by simp [lookup_insert], fresh⟩

theorem failsClean_leaveReserved (key : TubeName → HeapKey) (error : Err) (jobID : JobID)
    (clientID : ClientID) (change : Job → Job) :
    Prog.FailsClean ReservedFilled
      (moveJob jobID (reservedGuard error clientID) removeReservedJob change
        (enqueueTubeJob key)) :=
  fun _ filled => (filled.ends_leaveReserved (ends_enqueueTubeJob_fresh key) error jobID clientID
    change).mono (fun _ _ _ => trivial) (fun _ _ fails => fails.1) id

theorem failsClean_releaseWith (nowSeconds : Int64) (jobID : JobID) (clientID : ClientID)
    (pri : UInt32) (delay : Int64) :
    Prog.FailsClean ReservedFilled (releaseWith nowSeconds jobID clientID pri delay) := by
  unfold releaseWith
  split
  · exact failsClean_leaveReserved .ready _ jobID clientID _
  · intro jsm filled
    refine Prog.ends_bind ((filled.ends_leaveReserved (ends_enqueueTubeJob_fresh .delayed)
      .invalidJobTransition jobID clientID (Job.releasedWithDelay nowSeconds pri delay)).mono
      (fun _ _ holds => holds.2) (fun _ _ fails => fails.1) id) fun _ middle reindexed => ?_
    obtain ⟨job, entry, present, _⟩ := reindexed
    rw [Prog.bind_apply, getJob, Prog.bind_apply, JobIndex.get, present]
    trivial

theorem failsClean_kick (jobID : JobID) : Prog.FailsClean ReservedFilled (kick jobID) :=
  Prog.FailsClean.of_reads (fun _ => keeps_jobIndexGet jobID) fun found =>
    Prog.FailsClean.of_reads (fun _ => Prog.keeps_gets _) fun record =>
    Prog.FailsClean.of_reads (fun _ => keeps_stateGuard .buried found record) fun _ =>
    Prog.FailsClean.of_reads (fun _ => keeps_heapEntry found) fun entry =>
    (failsClean_removeBuriedJob entry).bind fun _ => (Prog.neverFails_modify _).bind fun _ =>
    (neverFails_enqueueTubeJob .ready found.job).bind fun _ => Prog.neverFails_modify _

/-! ## Touch and Delete -/

/-- What `Touch` does before it looks for the client. -/
def touchMove (nowSeconds : Int64) (jobID : JobID) (clientID : ClientID) : JSMProg Unit :=
  moveJob jobID (reservedGuard .invalidOperation clientID) removeReservedJob
    (Job.updateReservation nowSeconds) (enqueueReservedJob clientID)

/-- The state before an operation lets it fail without a trace: a `Touch` finds its client
unless it does not move the job, and a `Delete` that fails is refused. -/
def FailsWhole (jsm : JSM) : Op → Prop
  | .touch _ jobID clientID =>
      (∃ cli ∈ jsm.clients.entries, cli.cliID = clientID) ∨ ¬ jsm.CanTouch jobID clientID
  | .delete jobID clientID => ∀ record, jsm.recordOf jobID = some record →
      record.state = .reserved ∧ record.reservedBy ≠ clientID
  | _ => True

/-- The operations that answer a command of a client on a job or for a job. -/
def Op.Answers : Op → Prop
  | .delete _ _ | .release _ _ | .releaseWith _ _ _ _ _ | .touch _ _ _ | .bury _ _ _ _ | .kick _
  | .appendReservation _ _ _ _ _ => True
  | _ => False

theorem touch_fails {jsm after : JSM} (inv : JobsOk .anyRun jsm) (filled : ReservedFilled jsm)
    {nowSeconds : Int64} {jobID : JobID} {clientID : ClientID} {error : Err}
    (fails : touch nowSeconds jobID clientID jsm = .err error after) :
    after = jsm ∧ ¬ jsm.CanTouch jobID clientID ∨
      Reindexed jobID jsm after ∧ (∀ cli ∈ jsm.clients.entries, cli.cliID ≠ clientID) ∧
        jsm.CanTouch jobID clientID := by
  have isTouch : touch nowSeconds jobID clientID = (do
      touchMove nowSeconds jobID clientID
      let cli ← findClient clientID
      updateClientTickAt cli) := rfl
  rw [isTouch, Prog.bind_apply] at fails
  have named : Kinds.anyRun.held .reserved → ∀ record, jsm.recordOf jobID = some record →
      record.OwnedBy clientID → record.reservedBy = clientID := by
    intro held
    simp [Kinds.anyRun] at held
  have moves := (filled.ends_leaveReserved (ends_enqueueAt_fresh (.reserved clientID))
    .invalidOperation jobID clientID (Job.updateReservation nowSeconds)).and
    (ends_touchMove inv nowSeconds clientID named)
  change (touchMove nowSeconds jobID clientID jsm).Ends _ _ _ at moves
  cases outcome : touchMove nowSeconds jobID clientID jsm with
  | panic cause =>
      rw [outcome] at fails
      cases fails
  | err moveError middle =>
      rw [outcome] at fails moves
      cases fails
      exact Or.inl moves.1
  | ok value middle =>
      rw [outcome] at fails moves
      obtain ⟨⟨touches, reindexed⟩, record, _, moved⟩ := moves
      obtain ⟨clients, _⟩ := moved.frame.fields
      rw [Outcome.ok_andThen, Prog.bind_apply, findClient] at fails
      cases found : middle.clients.find clientID with
      | ok cli =>
          have scheduled := neverFails_updateClientTickAt cli middle
          rw [found, Outcome.ok_andThen] at fails
          rw [fails] at scheduled
          exact scheduled.elim
      | error findError =>
          rw [found] at fails
          cases fails
          obtain ⟨_, nobody⟩ := (after.clients.find_eq_error_iff clientID error).mp found
          rw [clients] at nobody
          exact Or.inr ⟨reindexed, nobody, touches⟩

theorem Reindexed.jobs_ne {jobID : JobID} {before after : JSM} (inv : JobsOk .anyRun before)
    (reindexed : Reindexed jobID before after) : after.jobs ≠ before.jobs := by
  intro same
  obtain ⟨job, entry, present, fresh⟩ := reindexed
  rw [same] at present
  obtain ⟨known, _, isEntry, allocated, _⟩ := inv.entered jobID _ present (by simp)
  cases isEntry
  omega

/-- What `Delete` does to the containers of a job that is no longer indexed. -/
theorem keeps_forgotten (jobID : JobID) (state : JobState) (found : IndexEntry)
    (change : Job → Job) :
    Prog.Keeps (Forgotten jobID)
      (match state with
      | .ready => do
          let entry ← found.heapEntry
          let _ ← removeReadyJob entry
          updateJob found.job change
      | .delayed => do
          let entry ← found.heapEntry
          let _ ← removeDelayedJob entry
          updateJob found.job change
      | .reserved => do
          let entry ← found.heapEntry
          let _ ← removeReservedJob entry
          updateJob found.job change
      | _ => updateJob found.job change) := by
  have closed := heapClosed_forgotten jobID
  have changes : Prog.Keeps (Forgotten jobID) (updateJob found.job change) :=
    Prog.keeps_modify fun _ holds => holds
  split
  · exact (keeps_heapEntry found).bind fun entry =>
      (closed.keeps_removeTubeJob .ready entry).bind fun _ => changes
  · exact (keeps_heapEntry found).bind fun entry =>
      (closed.keeps_removeDelayedJob entry).bind fun _ => changes
  · exact (keeps_heapEntry found).bind fun entry =>
      (closed.keeps_removeReservedJob entry).bind fun _ => changes
  · exact changes

theorem delete_fails {jsm after : JSM} {jobID : JobID} {clientID : ClientID} {error : Err}
    (fails : delete jobID clientID jsm = .err error after) :
    after = jsm ∧ FailsWhole jsm (.delete jobID clientID) ∨
      Forgotten jobID after ∧ ∃ record, jsm.recordOf jobID = some record ∧
        ¬ (record.state = .reserved ∧ record.reservedBy ≠ clientID) := by
  unfold delete at fails
  cases present : jsm.jobs.lookup jobID with
  | none =>
      rw [Prog.bind_apply, JobIndex.get, present] at fails
      cases fails
      refine Or.inl ⟨rfl, fun record recorded => ?_⟩
      simp [JSM.recordOf, present] at recorded
  | some found =>
      have recorded := jsm.recordOf_eq present
      rw [Prog.bind_apply, JobIndex.get, present] at fails
      dsimp only [Outcome.andThen] at fails
      rw [readJob_bind, Prog.bind_apply, Prog.require_apply] at fails
      split at fails
      next allowed =>
        refine Or.inr ⟨?_, _, recorded, allowed⟩
        rw [Outcome.ok_andThen, Prog.bind_apply, JobIndex.remove, present] at fails
        have kept := keeps_forgotten jobID (jsm.jobAt found.job).state found
          (fun job => (job.updateState .deleted).updateReservedBy [])
          { jsm with jobs := jsm.jobs.erase jobID }
          (by simp [Forgotten, lookup_erase])
        exact kept.of_err fails
      next refused =>
        cases fails
        refine Or.inl ⟨rfl, fun record again => ?_⟩
        rw [recorded] at again
        cases again
        exact not_not.mp refused

/-! ## All of them -/

/-- An operation that fails leaves the state as it was, or the index at least, exactly if the
state before it allows for that. -/
theorem failed_unchanged_iff {jsm after : JSM} (reachable : Reachable (fun _ _ => True) jsm)
    {op : Op} (answers : op.Answers) {error : Err} (fails : op.run jsm = .err error after) :
    (after = jsm ↔ FailsWhole jsm op) ∧ (after.jobs = jsm.jobs ↔ FailsWhole jsm op) := by
  have inv := jobsOk_anyRun_of_reachable reachable
  have filled := ReservedFilled.of_reachable reachable
  -- either the state is the same and may be, or the index differs and has to
  have settled : after = jsm ∧ FailsWhole jsm op ∨
      after.jobs ≠ jsm.jobs ∧ ¬ FailsWhole jsm op := by
    cases op with
    | delete jobID clientID =>
        rcases delete_fails (Prog.err_of_map fails) with same | ⟨forgotten, record, was, allowed⟩
        · exact Or.inl same
        · refine Or.inr ⟨fun same => ?_, fun whole => allowed (whole record was)⟩
          rw [Forgotten, same] at forgotten
          simp [JSM.recordOf, forgotten] at was
    | touch nowSeconds jobID clientID =>
        rcases touch_fails inv filled (Prog.err_of_map fails) with
          ⟨same, stuck⟩ | ⟨reindexed, nobody, touches⟩
        · exact Or.inl ⟨same, Or.inr stuck⟩
        · refine Or.inr ⟨reindexed.jobs_ne inv, fun whole => ?_⟩
          rcases whole with ⟨cli, member, named⟩ | stuck
          · exact nobody cli member named
          · exact stuck touches
    | release jobID clientID =>
        exact Or.inl ⟨(failsClean_leaveReserved .ready _ jobID clientID _ jsm filled).of_err
          (Prog.err_of_map fails), trivial⟩
    | releaseWith nowSeconds jobID clientID pri delay =>
        exact Or.inl ⟨(failsClean_releaseWith nowSeconds jobID clientID pri delay jsm
          filled).of_err (Prog.err_of_map fails), trivial⟩
    | bury nowSeconds jobID priority clientID =>
        exact Or.inl ⟨(failsClean_leaveReserved .buried _ jobID clientID _ jsm filled).of_err
          (Prog.err_of_map fails), trivial⟩
    | kick jobID =>
        exact Or.inl ⟨(failsClean_kick jobID jsm filled).of_err (Prog.err_of_map fails), trivial⟩
    | appendReservation clientId reqID watchedTubes nowSecs resvDeadlineAt =>
        exact Or.inl ⟨(failsClean_appendReservation clientId reqID watchedTubes nowSecs
          resvDeadlineAt jsm filled).of_err (Prog.err_of_map fails), trivial⟩
    | _ => exact answers.elim
  rcases settled with ⟨rfl, whole⟩ | ⟨different, notWhole⟩
  · simp [whole]
  · have changed : after ≠ jsm := fun same => different (congrArg JSM.jobs same)
    simp [different, notWhole, changed]

/-- A job is put and reserved. -/
def putAndReserve : List Op :=
  [.put 10 5 0 60 0 none [1], .appendReservation [7] [1] [[1]] 10 20]

theorem failed_unchanged_touch :
    (∀ cli ∈ (stateAfter putAndReserve).clients.entries, cli.cliID ≠ [8]) ∧
      ∃ error after, (Op.touch 30 1 [8]).run (stateAfter putAndReserve) = .err error after ∧
        after = stateAfter putAndReserve := by
  have reachable : Reachable (fun _ _ => True) (stateAfter putAndReserve) :=
    reachable_stateAfter _ fun _ _ _ => trivial
  have owner : ((stateAfter putAndReserve).recordOf 1).map (·.reservedBy) = some [7] := by
    decide +kernel
  -- the client is not the owner of the job
  have whole : FailsWhole (stateAfter putAndReserve) (.touch 30 1 [8]) := by
    right
    rintro ⟨found, _, present, _, owned, _⟩
    rw [JSM.recordOf_eq present, Option.map_some] at owner
    rcases owned.2 with isEmpty | isOwner
    · cases isEmpty
    · rw [isOwner] at owner
      cases owner
  refine ⟨by decide +kernel, ?_⟩
  have fails : ((Op.touch 30 1 [8]).run (stateAfter putAndReserve)).reply? =
      some (.error .unauthorizedOperation) := by
    decide +kernel
  cases outcome : (Op.touch 30 1 [8]).run (stateAfter putAndReserve) with
  | ok value after =>
      rw [outcome] at fails
      cases fails
  | err error after =>
      have answers : (Op.touch 30 1 [8]).Answers := trivial
      exact ⟨error, after, rfl, (failed_unchanged_iff reachable answers outcome).1.mpr whole⟩
  | panic cause =>
      rw [outcome] at fails
      cases fails

/-- `Touch` with the empty client id moves the job, and then misses the client. -/
theorem touch_fails_changed :
    Reachable (fun _ _ => True) (stateAfter putAndReserve) ∧
      ((Op.touch 30 1 []).run (stateAfter putAndReserve)).reply? = some (.error .entryMissing) ∧
      (((Op.touch 30 1 []).run (stateAfter putAndReserve)).state?.bind fun after =>
        (after.recordOf 1).map (·.expiresAt)) = some 90 ∧
      ((stateAfter putAndReserve).recordOf 1).map (·.expiresAt) = some 70 ∧
      (((Op.touch 30 1 []).run (stateAfter putAndReserve)).state?.map fun after =>
        after.reservedJobs.keys) = some [[]] ∧
      (stateAfter putAndReserve).reservedJobs.keys = [[7]] := by
  refine ⟨reachable_stateAfter _ fun _ _ _ => trivial, ?_, ?_, ?_, ?_, ?_⟩
  all_goals decide +kernel

end Coolbeans
