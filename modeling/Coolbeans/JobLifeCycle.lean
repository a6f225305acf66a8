import Coolbeans.JobRuns

/-!
# The life of a job

The interface `JSM` documents the life of a job by a diagram: a job is put, waits, is
reserved, goes back or is buried, and leaves the diagram when it is deleted.  An operation
takes jobs along edges of this diagram, one job at a time, and leaves all others alone.  It
takes a job that it names, or one that it comes across: a tick those that are due, a match
and `KickN` those at the head of a heap.
-/

namespace Coolbeans

open PositionHeap Relation StatefulProgram

namespace LifeCycle

/-! ## The diagram -/

/-- What stays the same during the life of a job. -/
structure SameJob (record next : Job) : Prop where
  id : next.id = record.id
  tubeName : next.tubeName = record.tubeName
  body : next.body = record.body
  bodySize : next.bodySize = record.bodySize
  ttr : next.ttr = record.ttr
  createdAt : next.createdAt = record.createdAt

/-- The job that an operation names. -/
def named : Op → Option JobID
  | .delete jobID _ | .release jobID _ | .releaseWith _ jobID _ _ _ | .touch _ jobID _
  | .bury _ jobID _ _ | .kick jobID => some jobID
  | _ => none

/-- The edges that an operation can take a job along.  A tick releases, and `KickN` kicks, the job
that has the id of an entry it finds; this is the job of the entry unless ids have come again. -/
inductive Edge (op : Op) (uniqueIDs : Prop) (id : JobID) : Option Job → Option Job → Prop where
  | enters {nowSeconds : Int64} {priority : UInt32} {delay ttr bodySize : Int64}
      {body : Option Bytes} {tubeName : TubeName} {next : Job}
      (puts : op = .put nowSeconds priority delay ttr bodySize body tubeName)
      (made : next = (Job.initial id nowSeconds priority delay ttr bodySize body
        tubeName).updateState next.state)
      (reaches : next.state = .ready ∨ next.state = .delayed) :
      Edge op uniqueIDs id none (some next)
  | wakes {nowSecs : Int64} {walk : TubeWalk} {record next : Job}
      (ticks : op = .tick nowSecs walk) (due : record.readyAt < nowSecs)
      (leaves : record.state = .delayed) (reaches : next.state = .ready)
      (same : SameJob record next) : Edge op uniqueIDs id (some record) (some next)
  | matched {nowSecs : Int64} {clientID : ClientID} {record : Job}
      (serves : matchesAt op = some nowSecs) (leaves : record.state = .ready) :
      Edge op uniqueIDs id (some record) (some (record.reservedFor nowSecs clientID))
  | expires {nowSecs : Int64} {walk : TubeWalk} {record next : Job}
      (ticks : op = .tick nowSecs walk) (due : uniqueIDs → record.expiresAt < nowSecs)
      (leaves : record.state = .reserved) (reaches : next.state = .ready)
      (same : SameJob record next) : Edge op uniqueIDs id (some record) (some next)
  | givenUp {record next : Job} (names : named op = some id) (leaves : record.state = .reserved)
      (reaches : next.state = .ready ∨ next.state = .delayed ∨ next.state = .buried)
      (same : SameJob record next) : Edge op uniqueIDs id (some record) (some next)
  | touched {record next : Job} (names : named op = some id) (isReserved : record.state = .reserved)
      (stays : next.state = .reserved) (same : SameJob record next) :
      Edge op uniqueIDs id (some record) (some next)
  | kicked {record next : Job}
      (takes : named op = some id ∨
        ∃ tubeName n, op = .kickN tubeName n ∧ (uniqueIDs → tubeName = record.tubeName))
      (leaves : record.state = .buried) (reaches : next.state = .ready)
      (same : SameJob record next) : Edge op uniqueIDs id (some record) (some next)
  | deleted {record : Job} {clientID : ClientID} (deletes : op = .delete id clientID) :
      Edge op uniqueIDs id (some record) none

/-- The jobs stay as they are, or one of them is taken along an edge. -/
inductive Change (op : Op) (uniqueIDs : Prop) (before after : JSM) : Prop where
  | rests (same : after.recordOf = before.recordOf)
  | takes {id : JobID} {next : Option Job} (edge : Edge op uniqueIDs id (before.recordOf id) next)
      (records : ∀ other, after.recordOf other = if other = id then next else before.recordOf other)

/-- The job is there after the operation. -/
def Outlives (id : JobID) (jsm : JSM) (op : Op) : Prop :=
  ∀ after, (op.run jsm).state? = some after → (after.recordOf id).isSome = true

namespace SameJob

theorem refl (record : Job) : SameJob record record := ⟨rfl, rfl, rfl, rfl, rfl, rfl⟩

theorem trans {first second third : Job} (before : SameJob first second)
    (after : SameJob second third) : SameJob first third :=
  ⟨after.id.trans before.id, after.tubeName.trans before.tubeName, after.body.trans before.body,
    after.bodySize.trans before.bodySize, after.ttr.trans before.ttr,
    after.createdAt.trans before.createdAt⟩

theorem updateState (record : Job) (state : JobState) :
    SameJob record (record.updateState state) := by
  constructor <;> simp

theorem released (record : Job) (pri : UInt32) (updatePri : Bool) :
    SameJob record (record.released pri updatePri) := by
  cases updatePri <;> constructor <;> simp [Job.released]

theorem releasedWithDelay (record : Job) (nowSeconds : Int64) (pri : UInt32) (delay : Int64) :
    SameJob record (record.releasedWithDelay nowSeconds pri delay) := by
  constructor <;> simp [Job.releasedWithDelay]

theorem reservedFor (record : Job) (nowSeconds : Int64) (clientID : ClientID) :
    SameJob record (record.reservedFor nowSeconds clientID) := by
  constructor <;> simp [Job.reservedFor]

theorem buriedWith (record : Job) (nowSeconds : Int64) (priority : UInt32) :
    SameJob record (record.buriedWith nowSeconds priority) := by
  constructor <;> simp [Job.buriedWith]

theorem kicked (record : Job) : SameJob record record.kicked := by
  constructor <;> simp [Job.kicked]

end SameJob

/-! ## Following the jobs through an operation -/

theorem sameJob_of_move {op : Op} {jsm : JSM} {id : JobID} {record next : Job}
    (move : Move op jsm id (some record) (some next)) : SameJob record next := by
  cases move with
  | woken => exact .updateState _ _
  | matched => exact .reservedFor _ _ _
  | expired | released | releasedNow => exact .released _ _ _
  | releasedLater => exact .releasedWithDelay _ _ _ _
  | touched => exact ⟨rfl, rfl, rfl, rfl, rfl, rfl⟩
  | buried => exact .buriedWith _ _ _
  | kicked | kickedFirst => exact .kicked _

theorem edge_of_move {kinds : Kinds} {op : Op} {uniqueIDs : Prop} {jsm : JSM} {id : JobID}
    {next : Option Job} (jobs : JobsOk kinds jsm) (numbered : Numbered jsm)
    (buried : BuriedInOrder jsm) (few : uniqueIDs → jsm.nextJob ≤ 2 ^ 64)
    (move : Move op jsm id (jsm.recordOf id) next) :
    Edge op uniqueIDs id (jsm.recordOf id) next := by
  generalize recorded : jsm.recordOf id = was at move
  have same : ∀ record job, was = some record → next = some job → SameJob record job := by
    rintro record job rfl rfl
    exact sameJob_of_move move
  cases move with
  | @entered _ _ delay _ _ _ _ puts =>
      refine .enters puts (by simp) ?_
      by_cases isDelayed : 0 < delay <;> simp [isDelayed]
  | woken ticks due leaves => exact .wakes ticks due leaves (by simp) (same _ _ rfl rfl)
  | matched serves leaves => exact .matched serves leaves
  | expired ticks held isEntry due owned =>
      subst isEntry
      obtain ⟨found, present, rfl⟩ := Option.map_eq_some_iff.mp recorded
      refine .expires ticks (fun unique => ?_) owned.1 (by simp [Job.released]) (same _ _ rfl rfl)
      rwa [JSM.jobOf, ← numbered.job_of_entry jobs (few unique) held present] at due
  | released asks owned =>
      exact .givenUp (by rw [asks]; rfl) owned.1 (Or.inl (by simp [Job.released]))
        (same _ _ rfl rfl)
  | releasedNow asks _ owned =>
      exact .givenUp (by rw [asks]; rfl) owned.1 (Or.inl (by simp [Job.released]))
        (same _ _ rfl rfl)
  | releasedLater asks _ owned =>
      exact .givenUp (by rw [asks]; rfl) owned.1
        (Or.inr (Or.inl (by simp [Job.releasedWithDelay]))) (same _ _ rfl rfl)
  | touched asks owned =>
      exact .touched (by rw [asks]; rfl) owned.1 owned.1 (same _ _ rfl rfl)
  | buried asks owned =>
      exact .givenUp (by rw [asks]; rfl) owned.1 (Or.inr (Or.inr (by simp [Job.buriedWith])))
        (same _ _ rfl rfl)
  | kicked asks leaves =>
      exact .kicked (Or.inl (by rw [asks]; rfl)) leaves (by simp [Job.kicked]) (same _ _ rfl rfl)
  | @kickedFirst tubeName n entry record asks held isEntry leaves =>
      subst isEntry
      obtain ⟨found, present, rfl⟩ := Option.map_eq_some_iff.mp recorded
      refine .kicked (Or.inr ⟨tubeName, n, asks, fun unique => ?_⟩) leaves (by simp [Job.kicked])
        (same _ _ rfl rfl)
      have isJob := numbered.job_of_entry jobs (few unique) held present
      obtain ⟨_, home⟩ := buried.own tubeName entry held _ found present isJob
      exact ((Job.home_eq_buried_iff _ _).mp home).2.symm
  | deleted asks => exact .deleted asks

theorem changes_of_moves {op : Op} {uniqueIDs : Prop} {before after : JSM}
    (numbered : Numbered before) (buried : BuriedInOrder before)
    (moves : ReflTransGen (Moves op) before after) (few : uniqueIDs → after.nextJob ≤ 2 ^ 64) :
    ReflTransGen (Change op uniqueIDs) before after := by
  induction moves with
  | refl => exact .refl
  | tail earlier step induction =>
      have sofar := JobsKept.of_moves earlier
      cases step with
      | rests same kept =>
          exact (induction fun unique => kept.nextJob.trans (few unique)).tail (.rests same)
      | makes move records kept jobs =>
          have fewBefore := fun unique => kept.nextJob.trans (few unique)
          obtain ⟨kinds, jobs⟩ := jobs
          exact (induction fewBefore).tail (.takes (edge_of_move jobs (sofar.numbered numbered)
            (sofar.buried buried) fewBefore move) records)

/-! ## Steps and runs -/

section Runs

variable {op : Op} {before after : JSM} {id : JobID}

/-- A job that has changed took an edge from where it was. -/
theorem exists_edge {uniqueIDs : Prop}
    (changes : ReflTransGen (Change op uniqueIDs) before after)
    (changed : after.recordOf id ≠ before.recordOf id) :
    ∃ middle later, ReflTransGen (Change op uniqueIDs) before middle ∧
      middle.recordOf id = before.recordOf id ∧
      Edge op uniqueIDs id (before.recordOf id) (later.recordOf id) ∧
      ReflTransGen (Change op uniqueIDs) later after := by
  induction changes with
  | refl => exact absurd rfl changed
  | @tail middle after earlier change induction =>
      by_cases untouched : middle.recordOf id = before.recordOf id
      · cases change with
        | rests same =>
            rw [same] at changed
            exact absurd untouched changed
        | @takes taken next edge records =>
            have reached := records id
            split at reached
            next isTaken =>
              subst isTaken
              rw [untouched, ← reached] at edge
              exact ⟨middle, after, earlier, untouched, edge, .refl⟩
            next => exact absurd (reached.trans untouched) changed
      · obtain ⟨first, later, before, same, edge, rest⟩ := induction untouched
        exact ⟨first, later, before, same, edge, rest.tail change⟩

theorem same_or_deleted {record : Job} (moves : ReflTransGen (Moves op) before after)
    (present : before.recordOf id = some record) :
    (∃ next, after.recordOf id = some next ∧ SameJob record next) ∨
      after.recordOf id = none ∧ ∃ clientID, op = .delete id clientID := by
  refine recordOf_of_moves (fun now => (∃ next, now = some next ∧ SameJob record next) ∨
    now = none ∧ ∃ clientID, op = .delete id clientID) moves
    (Or.inl ⟨record, present, .refl record⟩) ?_
  rintro jsm was next (⟨now, rfl, sameNow⟩ | ⟨rfl, clientID, isDelete⟩) move
  · cases next with
    | some next => exact Or.inl ⟨next, rfl, sameNow.trans (sameJob_of_move move)⟩
    | none =>
        cases move with
        | deleted asks => exact Or.inr ⟨rfl, _, asks⟩
  · cases move with
    | entered puts => exact absurd (puts.symm.trans isDelete) (by simp)

theorem absent_or_put (moves : ReflTransGen (Moves op) before after)
    (absent : before.recordOf id = none) : after.recordOf id = none ∨ op.isPut = true := by
  refine recordOf_of_moves (fun now => now = none ∨ op.isPut = true) moves (Or.inl absent) ?_
  rintro jsm was next (rfl | isPut) move
  · cases move with
    | entered puts => exact Or.inr (by rw [puts]; rfl)
  · exact Or.inr isPut

/-- The job is there, and it is the one that it was. -/
structure Lives (id : JobID) (record : Job) (jsm : JSM) : Prop where
  jobs : JobsOk .anyRun jsm
  same : ∃ next, jsm.recordOf id = some next ∧ SameJob record next

theorem Lives.step {record : Job} {answer : Answer} (lives : Lives id record before)
    (outlives : Outlives id before op) (steps : op.Steps before answer after) :
    Lives id record after := by
  obtain ⟨now, isNow, sameNow⟩ := lives.same
  have along := along_of_steps lives.jobs steps
  refine ⟨along.jobs, ?_⟩
  rcases same_or_deleted along.moves isNow with ⟨next, isNext, same⟩ | ⟨gone, _⟩
  · exact ⟨next, isNext, sameNow.trans same⟩
  · have there := outlives after steps.2
    rw [gone] at there
    cases there

/-- A delayed job in a tube that a client waits in. -/
def delayedJobAwaited : List Op :=
  [.put 0 1 5 10 2 (some [65, 66]) [1], .appendReservation [7] [1] [[1]] 1 20]

end Runs

end LifeCycle

end Coolbeans
