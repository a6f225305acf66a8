import Coolbeans.JobRuns

/-!
# The walk over the delayed jobs

While `tickDelayJobs` ranges over the map of tubes, the removal of the last job of a tube
deletes its record and the job's entry into the ready heap creates it anew, so Go may or may not
visit the tube again.  Neither this nor the order of the tubes makes a difference: the jobs that
are due become ready, the others stay, and the timer is set to the earliest of them.
-/

namespace Coolbeans

open FiniteMap PositionHeap StatefulProgram

/-- The delayed jobs that are due have become ready and no other job has moved; the timer is at
the earliest delayed job that is left, if there is one. -/
structure WakesExactly (now : Int64) (before after : JSM) : Prop where
  records : ∀ id, after.recordOf id = (before.recordOf id).map (Job.wake now)
  ready : ∀ tubeName id, after.HoldsJob (.ready tubeName) id ↔
    before.HoldsJob (.ready tubeName) id ∨ ∃ record, before.recordOf id = some record ∧
      record.state = .delayed ∧ record.readyAt < now ∧ record.tubeName = tubeName
  delayed : ∀ tubeName id, after.HoldsJob (.delayed tubeName) id ↔
    before.HoldsJob (.delayed tubeName) id ∧
      ∀ record, before.recordOf id = some record → ¬ record.readyAt < now
  elsewhere : ∀ key : HeapKey, key.kind ≠ .ready → key.kind ≠ .delayed →
    after.heapAt key = before.heapAt key
  earliest : ∀ id record, after.recordOf id = some record → record.state = .delayed →
    after.nextDelayTickAt ≤ record.readyAt
  attained : (∃ id record, after.recordOf id = some record ∧ record.state = .delayed) →
    ∃ id record, after.recordOf id = some record ∧ record.state = .delayed ∧
      record.readyAt = after.nextDelayTickAt
  unset : (∀ id record, after.recordOf id = some record → record.state ≠ .delayed) →
    after.nextDelayTickAt = maxTime

section Wakes

variable {kinds : Kinds} {now : Int64} {before after : JSM}

theorem Job.home_wake_eq_ready_iff {record : Job} {tubeName : TubeName} :
    (record.wake now).home = some (.ready tubeName) ↔
      record.home = some (.ready tubeName) ∨
        record.state = .delayed ∧ record.readyAt < now ∧ record.tubeName = tubeName := by
  rw [Job.home_eq_ready_iff, Job.home_eq_ready_iff, Job.tubeName_wake, Job.wake]
  split
  next due => simp [due.1, due.2]
  next notDue =>
    constructor
    · exact Or.inl
    · rintro (isReady | ⟨isDelayed, isDue, _⟩)
      · exact isReady
      · exact absurd ⟨isDelayed, isDue⟩ notDue

theorem Job.home_wake_eq_delayed_iff {record : Job} {tubeName : TubeName} :
    (record.wake now).home = some (.delayed tubeName) ↔
      record.home = some (.delayed tubeName) ∧ ¬ record.readyAt < now := by
  rw [Job.home_eq_delayed_iff, Job.home_eq_delayed_iff, Job.tubeName_wake, Job.wake]
  split
  next due => simp [due.2]
  next notDue =>
    constructor
    · intro isDelayed
      exact ⟨isDelayed, fun isDue => notDue ⟨isDelayed.1, isDue⟩⟩
    · exact And.left

theorem DueWoken.holds_ready (woken : DueWoken kinds now before after)
    (jobs : JobsOk kinds before) (readyExact : kinds .ready) (tubeName : TubeName) (id : JobID) :
    after.HoldsJob (.ready tubeName) id ↔
      before.HoldsJob (.ready tubeName) id ∨ ∃ record, before.recordOf id = some record ∧
        record.state = .delayed ∧ record.readyAt < now ∧ record.tubeName = tubeName := by
  rw [woken.jobs.holdsJob_iff (.ready tubeName) readyExact,
    jobs.holdsJob_iff (.ready tubeName) readyExact, woken.records]
  cases before.recordOf id with
  | none => simp
  | some record => simp [Job.home_wake_eq_ready_iff]

theorem DueWoken.holds_delayed (woken : DueWoken kinds now before after)
    (jobs : JobsOk kinds before) (delayedExact : kinds .delayed) (tubeName : TubeName)
    (id : JobID) :
    after.HoldsJob (.delayed tubeName) id ↔
      before.HoldsJob (.delayed tubeName) id ∧
        ∀ record, before.recordOf id = some record → ¬ record.readyAt < now := by
  rw [woken.jobs.holdsJob_iff (.delayed tubeName) delayedExact,
    jobs.holdsJob_iff (.delayed tubeName) delayedExact, woken.records]
  cases before.recordOf id with
  | none => simp
  | some record => simp [Job.home_wake_eq_delayed_iff]

/-- The timer is at the end of time only if no delayed job is due before. -/
theorem DueWoken.exists_attained (woken : DueWoken kinds now before after)
    (remains : ∃ id record, after.recordOf id = some record ∧ record.state = .delayed) :
    ∃ id record, after.recordOf id = some record ∧ record.state = .delayed ∧
      record.readyAt = after.nextDelayTickAt := by
  rcases woken.attained with isMax | attained
  · obtain ⟨id, record, recorded, isDelayed⟩ := remains
    refine ⟨id, record, recorded, isDelayed, Int64.le_antisymm ?_ ?_⟩
    · rw [isMax]
      exact Int64.le_maxValue record.readyAt
    · exact woken.le_readyAt id record recorded isDelayed
  · exact attained

theorem DueWoken.wakesExactly (woken : DueWoken kinds now before after)
    (jobs : JobsOk kinds before) (readyExact : kinds .ready) (delayedExact : kinds .delayed) :
    WakesExactly now before after where
  records := woken.records
  ready := woken.holds_ready jobs readyExact
  delayed := woken.holds_delayed jobs delayedExact
  elsewhere := woken.heaps (kinds.held_of_exact _ readyExact)
  earliest := woken.le_readyAt
  attained := woken.exists_attained
  unset none := woken.attained.resolve_right fun ⟨id, record, recorded, isDelayed, _⟩ =>
    none id record recorded isDelayed

end Wakes

/-- From every reachable state `tickDelayJobs` makes exactly the due jobs ready and finds the
earliest of the others, however it ranges over the tubes and whatever the timer says. -/
theorem tickDelayJobs_wakes {admits : JSM → Op → Prop} {jsm : JSM}
    (reachable : Reachable admits jsm) (now tickAt : Int64) (walk : TubeWalk) :
    ∃ after, tickDelayJobs now walk { jsm with nextDelayTickAt := tickAt } = .ok () after ∧
      WakesExactly now { jsm with nextDelayTickAt := tickAt } after := by
  have jobs : JobsOk .anyRun { jsm with nextDelayTickAt := tickAt } :=
    (jobsOk_anyRun_of_reachable reachable).congr rfl rfl rfl rfl fun key => by cases key <;> rfl
  obtain ⟨_, after, returns, woken⟩ :=
    (ends_tickDelayJobs jobs (by simp [Kinds.anyRun]) walk).returns
  exact ⟨after, returns,
    woken.wakesExactly jobs (by simp [Kinds.anyRun]) (by simp [Kinds.anyRun])⟩

/-- A due job in one tube, a later one and a ready one in another. -/
def delayedInTwoTubes : List Op :=
  [.put 10 5 1 60 0 none [1], .put 10 5 9 60 0 none [2], .put 10 5 0 60 0 none [2]]

/-- A walk that visits every tube twice, back and forth. -/
def TubeWalk.thereAndBack : TubeWalk where
  delay names := names ++ names.reverse
  ready names := names
  mem_delay names tubeName := by simp
  perm_ready _ := .refl _

theorem tickDelayJobs_wakes_twice :
    ((stateAfter delayedInTwoTubes).recordOf 1).map (·.state) = some .delayed ∧
      ∃ after, tickDelayJobs 15 .thereAndBack
          { stateAfter delayedInTwoTubes with nextDelayTickAt := maxTime } = .ok () after ∧
        WakesExactly 15 { stateAfter delayedInTwoTubes with nextDelayTickAt := maxTime }
          after := by
  have reachable : Reachable (fun _ _ => True) (stateAfter delayedInTwoTubes) :=
    reachable_stateAfter delayedInTwoTubes (by simp)
  exact ⟨by decide +kernel, tickDelayJobs_wakes reachable 15 maxTime .thereAndBack⟩

end Coolbeans
