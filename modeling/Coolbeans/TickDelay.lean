import Coolbeans.JobCommands

/-!
# The delay stage of a tick

`tickDelayJobs` makes every delayed job ready whose time has come, whatever
the order in which it walks the tubes, and finds the earliest time at which
one of the others will be due.
-/

namespace Coolbeans

open FiniteMap PositionHeap StatefulProgram

/-- A delayed job whose time has come becomes ready. -/
def Job.wake (now : Int64) (job : Job) : Job :=
  if job.state = .delayed ∧ job.readyAt < now then job.updateState .ready else job

theorem Job.tubeName_wake (now : Int64) (job : Job) : (job.wake now).tubeName = job.tubeName := by
  unfold Job.wake
  split <;> simp

theorem Job.wake_of_state_ne {job : Job} (undelayed : job.state ≠ .delayed) (now : Int64) :
    job.wake now = job :=
  if_neg fun due => undelayed due.1

theorem Job.wake_wake (now : Int64) (job : Job) : (job.wake now).wake now = job.wake now := by
  unfold Job.wake
  by_cases due : job.state = .delayed ∧ job.readyAt < now
  · simp [due]
  · simp only [if_neg due]

/-- The due jobs of the given tubes have become ready; nothing else has
changed. -/
structure Woken (kinds : Kinds) (now : Int64) (tubeNames : List TubeName)
    (before after : JSM) : Prop where
  jobs : JobsOk kinds after
  records : ∀ id, after.recordOf id = (before.recordOf id).map fun record =>
    if record.tubeName ∈ tubeNames then record.wake now else record
  heaps : kinds.held .ready → ∀ key : HeapKey, key.kind ≠ .ready → key.kind ≠ .delayed →
    after.heapAt key = before.heapAt key
  frame : JobFrame before after

/-- The clock is the earliest at which a delayed job of the given tubes will be
due, or `start` if that is earlier. -/
structure Earliest (start : Int64) (tubeNames : List TubeName) (clock : Int64) (jsm : JSM) :
    Prop where
  le_start : clock ≤ start
  le : ∀ id record, jsm.recordOf id = some record → record.state = .delayed →
    record.tubeName ∈ tubeNames → clock ≤ record.readyAt
  attained : clock = start ∨ ∃ id record, jsm.recordOf id = some record ∧
    record.state = .delayed ∧ record.tubeName ∈ tubeNames ∧ record.readyAt = clock

theorem HeapKey.readyAt_le_of_sortKey_le {tubeName : TubeName} {first second : Job}
    (le : (HeapKey.delayed tubeName).sortKey first ≤ (HeapKey.delayed tubeName).sortKey second) :
    first.readyAt ≤ second.readyAt := by
  simp only [HeapKey.sortKey, Prod.Lex.toLex_le_toLex] at le
  rw [Int64.le_iff_toInt_le]
  omega

section Tube

variable {kinds : Kinds} {jsm : JSM} {now : Int64}

theorem Woken.of_not_due (inv : JobsOk kinds jsm) {tubeNames : List TubeName}
    (notDue : ∀ id record, jsm.recordOf id = some record → record.state = .delayed →
      record.tubeName ∈ tubeNames → ¬ record.readyAt < now) :
    Woken kinds now tubeNames jsm jsm := by
  refine ⟨inv, fun id => ?_, fun _ _ _ _ => rfl, .refl jsm⟩
  cases recorded : jsm.recordOf id with
  | none => rfl
  | some record =>
      simp only [Option.map_some, Option.some.injEq]
      split
      next inTubes =>
        rw [Job.wake, if_neg]
        rintro ⟨isDelayed, due⟩
        exact notDue id record recorded isDelayed inTubes due
      next => rfl

theorem ends_ready_head (inv : JobsOk kinds jsm) (delayedExact : kinds .delayed)
    {tubeName : TubeName} {entry : Nat}
    (head : (jsm.heapAt (.delayed tubeName)).head? = some entry) :
    (ready (jsm.jobOf entry).id jsm).Ends
      (fun _ after => Moved kinds (jsm.jobOf entry).id (jsm.jobOf entry)
        ((jsm.jobOf entry).updateState .ready) jsm after)
      (fun _ _ => False) False := by
  have member := List.mem_of_head? head
  obtain ⟨recorded, home⟩ :=
    inv.recordOf_jobOf (.delayed tubeName) delayedExact member
  obtain ⟨_, present, _⟩ := inv.exact (.delayed tubeName) entry delayedExact member
  refine (ends_fromDelayedToReady inv).mono ?_ ?_ fun impossible =>
    impossible (kinds.held_of_exact _ delayedExact)
  · rintro _ after ⟨record, _, moved⟩
    have same : record = jsm.jobOf entry := Option.some.inj (moved.was.symm.trans recorded)
    rwa [same] at moved
  · rintro _ after ⟨_, fails⟩
    refine fails (kinds.held_of_exact _ delayedExact) _ entry present rfl
      ((Job.home_eq_delayed_iff _ _).mp home).1 ?_
    rw [List.head?_eq_getElem?] at head
    exact inv.tracked (.delayed tubeName) 0 entry head

theorem ends_tickDelayTube (inv : JobsOk kinds jsm) (delayedExact : kinds .delayed)
    (tubeName : TubeName) (rounds : Nat) (start : Int64)
    (enough : (jsm.heapAt (.delayed tubeName)).length < rounds) :
    (tickDelayTube now tubeName rounds start jsm).Ends
      (fun clock after => Woken kinds now [tubeName] jsm after ∧
        Earliest start [tubeName] clock after)
      (fun _ _ => False) False := by
  induction rounds generalizing jsm with
  | zero => omega
  | succ rounds ih =>
  cases head : (jsm.heapAt (.delayed tubeName)).head? with
  | none =>
      have none : ∀ id record, jsm.recordOf id = some record → record.state = .delayed →
          record.tubeName ∉ [tubeName] := by
        intro id record recorded isDelayed inTube
        refine inv.home_ne_of_empty (.delayed tubeName) delayedExact
          (List.head?_eq_none_iff.mp head) recorded ?_
        exact (Job.home_eq_delayed_iff _ _).mpr ⟨isDelayed, List.mem_singleton.mp inTube⟩
      rw [tickDelayTube_of_none head]
      refine ⟨.of_not_due inv fun id record recorded isDelayed inTube => ?_, ?_⟩
      · exact absurd inTube (none id record recorded isDelayed)
      · exact ⟨Int64.le_refl _, fun id record recorded isDelayed inTube =>
          absurd inTube (none id record recorded isDelayed), Or.inl rfl⟩
  | some entry =>
  obtain ⟨recorded, home⟩ := inv.recordOf_jobOf (.delayed tubeName) delayedExact
    (List.mem_of_head? head)
  obtain ⟨isDelayed, inTube⟩ := (Job.home_eq_delayed_iff _ _).mp home
  have least : ∀ id record, jsm.recordOf id = some record → record.state = .delayed →
      record.tubeName ∈ [tubeName] → (jsm.jobOf entry).readyAt ≤ record.readyAt := by
    intro id record isRecord recordDelayed recordTube
    exact HeapKey.readyAt_le_of_sortKey_le (inv.head_le (.delayed tubeName) delayedExact
      head isRecord ((Job.home_eq_delayed_iff _ _).mpr
        ⟨recordDelayed, List.mem_singleton.mp recordTube⟩))
  by_cases notDue : now ≤ (jsm.jobOf entry).readyAt
  · rw [tickDelayTube_of_early head notDue]
    refine ⟨.of_not_due inv fun id record isRecord recordDelayed recordTube due => ?_, ?_, ?_, ?_⟩
    · exact Int64.not_lt.mpr (Int64.le_trans notDue (least id record isRecord recordDelayed
        recordTube)) due
    · split
      next earlier => exact Int64.le_of_lt earlier
      next => exact Int64.le_refl _
    · intro id record isRecord recordDelayed recordTube
      refine Int64.le_trans ?_ (least id record isRecord recordDelayed recordTube)
      split
      next => exact Int64.le_refl _
      next later => exact Int64.not_lt.mp later
    · split
      next =>
        exact Or.inr ⟨_, _, recorded, isDelayed, List.mem_singleton.mpr inTube, rfl⟩
      next => exact Or.inl rfl
  · have isDue := Int64.not_le.mp notDue
    rw [tickDelayTube_of_due head isDue]
    refine Prog.ends_bind (Prog.ends_orCrash _ (ends_ready_head inv delayedExact head)) ?_
    intro _ middle moved
    have shorter := moved.shrinks (.delayed tubeName) delayedExact home (by simp [Job.home])
    refine (ih moved.inv (by omega)).mono ?_ (fun _ _ => False.elim) False.elim
    rintro clock after ⟨woken, earliest⟩
    refine ⟨⟨woken.jobs, fun id => ?_, fun readyHeld key notReady notDelayed => ?_,
      moved.frame.trans woken.frame⟩, earliest⟩
    · rw [woken.records, moved.records]
      split
      next same =>
        rw [same, recorded]
        simp [inTube, Job.wake, isDelayed, isDue]
      next => rfl
    · rw [woken.heaps readyHeld key notReady notDelayed]
      have newHome : ((jsm.jobOf entry).updateState .ready).home = some (.ready tubeName) := by
        simp [Job.home, inTube]
      apply moved.heapAt_other newHome readyHeld
      · rw [home]
        rintro ⟨⟩
        exact notDelayed rfl
      · rintro rfl
        exact notReady rfl

end Tube

/-! ## The walk -/

section Walk

variable {kinds : Kinds} {jsm : JSM} {now : Int64}

theorem Woken.append {first second third : JSM} {done : List TubeName} {tubeName : TubeName}
    (before : Woken kinds now done first second) (after : Woken kinds now [tubeName] second third) :
    Woken kinds now (done ++ [tubeName]) first third := by
  refine ⟨after.jobs, fun id => ?_, fun readyHeld key notReady notDelayed => ?_,
    before.frame.trans after.frame⟩
  · rw [after.records, before.records, Option.map_map]
    congr 1
    funext record
    simp only [Function.comp, List.mem_append, List.mem_singleton]
    by_cases inDone : record.tubeName ∈ done
    · simp only [inDone, if_true, true_or, Job.tubeName_wake, Job.wake_wake, ite_self]
    · simp only [inDone, if_false, false_or]
  · exact (after.heaps readyHeld key notReady notDelayed).trans
      (before.heaps readyHeld key notReady notDelayed)

theorem Woken.delayed_before {before after : JSM} {tubeNames : List TubeName}
    (woken : Woken kinds now tubeNames before after) {id : JobID} {record : Job}
    (recorded : after.recordOf id = some record) (isDelayed : record.state = .delayed) :
    before.recordOf id = some record := by
  rw [woken.records] at recorded
  obtain ⟨old, wasRecorded, isRecord⟩ := Option.map_eq_some_iff.mp recorded
  rw [wasRecorded]
  subst isRecord
  split at isDelayed
  · unfold Job.wake at isDelayed
    split at isDelayed
    next => simp at isDelayed
    next notDue => simp [Job.wake, notDue]
  next notIn => simp [notIn]

theorem Woken.delayed_after {before after : JSM} {tubeNames : List TubeName}
    (woken : Woken kinds now tubeNames before after) {id : JobID} {record : Job}
    (recorded : before.recordOf id = some record)
    (stays : record.tubeName ∉ tubeNames ∨ ¬ record.readyAt < now) :
    after.recordOf id = some record := by
  rw [woken.records, recorded]
  simp only [Option.map_some, Option.some.injEq]
  split
  next inTubes =>
    have notDue := stays.resolve_left (not_not_intro inTubes)
    simp [Job.wake, notDue]
  next => rfl

theorem Earliest.append {before after : JSM} {done : List TubeName} {tubeName : TubeName}
    {start clock next : Int64} (earlier : Earliest start done clock before)
    (woken : Woken kinds now [tubeName] before after)
    (awake : ∀ id record, before.recordOf id = some record → record.state = .delayed →
      record.tubeName ∈ done → ¬ record.readyAt < now)
    (later : Earliest clock [tubeName] next after) :
    Earliest start (done ++ [tubeName]) next after := by
  refine ⟨Int64.le_trans later.le_start earlier.le_start, ?_, ?_⟩
  · intro id record recorded isDelayed inTubes
    rcases List.mem_append.mp inTubes with inDone | isLast
    · exact Int64.le_trans later.le_start
        (earlier.le id record (woken.delayed_before recorded isDelayed) isDelayed inDone)
    · exact later.le id record recorded isDelayed isLast
  · rcases later.attained with isClock | ⟨id, record, recorded, isDelayed, inTube, isNext⟩
    · rw [isClock]
      rcases earlier.attained with isStart | ⟨id, record, recorded, isDelayed, inDone, isNext⟩
      · exact Or.inl isStart
      · right
        exact ⟨id, record, woken.delayed_after recorded
          (Or.inr (awake id record recorded isDelayed inDone)), isDelayed,
          List.mem_append_left _ inDone, isNext⟩
    · exact Or.inr ⟨id, record, recorded, isDelayed, List.mem_append_right _ inTube, isNext⟩

theorem Woken.not_due {before after : JSM} {tubeNames : List TubeName}
    (woken : Woken kinds now tubeNames before after) {id : JobID} {record : Job}
    (recorded : after.recordOf id = some record) (isDelayed : record.state = .delayed)
    (inTubes : record.tubeName ∈ tubeNames) : ¬ record.readyAt < now := by
  have wasRecorded := woken.delayed_before recorded isDelayed
  intro due
  rw [woken.records, wasRecorded] at recorded
  simp only [Option.map_some, if_pos inTubes, Option.some.injEq, Job.wake,
    if_pos (And.intro isDelayed due)] at recorded
  rw [← recorded] at isDelayed
  simp at isDelayed

theorem ends_walkDelay (inv : JobsOk kinds jsm) (delayedExact : kinds .delayed)
    (tubeNames : List TubeName) :
    (tubeNames.foldlM (visitDelayTube now) maxTime jsm).Ends
      (fun clock after => Woken kinds now tubeNames jsm after ∧
        Earliest maxTime tubeNames clock after)
      (fun _ _ => False) False := by
  refine Prog.ends_foldlM tubeNames (fun done clock after =>
    Woken kinds now done jsm after ∧ Earliest maxTime done clock after) ?_ ?_
  · rintro done tubeName rest clock middle - ⟨woken, earliest⟩
    unfold visitDelayTube
    rw [Prog.gets_bind]
    refine (ends_tickDelayTube woken.jobs delayedExact tubeName _ clock (Nat.lt_succ_self _)).mono
      ?_ (fun _ _ => False.elim) False.elim
    rintro next after ⟨wokenTube, earliestTube⟩
    exact ⟨woken.append wokenTube, earliest.append wokenTube
      (fun id record recorded isDelayed inDone => woken.not_due recorded isDelayed inDone)
      earliestTube⟩
  · refine ⟨.of_not_due inv (by simp), Int64.le_refl _, by simp, Or.inl rfl⟩

/-- What `tickDelayJobs` does, in whatever order it visits the tubes. -/
structure DueWoken (kinds : Kinds) (now : Int64) (before after : JSM) : Prop where
  jobs : JobsOk kinds after
  records : ∀ id, after.recordOf id = (before.recordOf id).map (Job.wake now)
  heaps : kinds.held .ready → ∀ key : HeapKey, key.kind ≠ .ready → key.kind ≠ .delayed →
    after.heapAt key = before.heapAt key
  clients : after.clientView = before.clientView
  maxJobID : after.maxJobID = before.maxJobID
  le_maxTime : after.nextDelayTickAt ≤ maxTime
  le_readyAt : ∀ id record, after.recordOf id = some record → record.state = .delayed →
    after.nextDelayTickAt ≤ record.readyAt
  attained : after.nextDelayTickAt = maxTime ∨ ∃ id record, after.recordOf id = some record ∧
    record.state = .delayed ∧ record.readyAt = after.nextDelayTickAt

theorem ends_tickDelayJobs (inv : JobsOk kinds jsm) (delayedExact : kinds .delayed)
    (walk : TubeWalk) :
    (tickDelayJobs now walk jsm).Ends (fun _ after => DueWoken kinds now jsm after)
      (fun _ _ => False) False := by
  unfold tickDelayJobs
  rw [Prog.gets_bind]
  refine Prog.ends_bind (ends_walkDelay inv delayedExact _) ?_
  rintro clock middle ⟨woken, earliest⟩
  have listed : ∀ id record, jsm.recordOf id = some record → record.state = .delayed →
      record.tubeName ∈ walk.delay jsm.tubes.keys := by
    intro id record recorded isDelayed
    rw [walk.mem_delay]
    obtain ⟨entry, member, _⟩ := inv.exists_entry recorded
      ((Job.home_eq_delayed_iff _ _).mpr ⟨isDelayed, rfl⟩) delayedExact
    exact (jsm.mem_keys_iff_hasTube _).mpr (jsm.present_of_mem member)
  have sameHeaps : ∀ key : HeapKey,
      JSM.heapAt { middle with nextDelayTickAt := clock } key = middle.heapAt key :=
    fun key => by cases key <;> rfl
  exact
    { jobs := JobInv.congr woken.jobs rfl rfl rfl rfl sameHeaps
      records := by
        intro id
        refine (woken.records id).trans ?_
        cases recorded : jsm.recordOf id with
        | none => rfl
        | some record =>
            simp only [Option.map_some, Option.some.injEq]
            split
            next => rfl
            next unlisted =>
              rw [Job.wake, if_neg]
              exact fun due => unlisted (listed id record recorded due.1)
      heaps := fun readyHeld key notReady notDelayed =>
        (sameHeaps key).trans (woken.heaps readyHeld key notReady notDelayed)
      clients := woken.frame.clients
      maxJobID := woken.frame.maxJobID
      le_maxTime := earliest.le_start
      le_readyAt := fun id record recorded isDelayed => earliest.le id record recorded isDelayed
        (listed id record (woken.delayed_before recorded isDelayed) isDelayed)
      attained := by
        rcases earliest.attained with isMax | ⟨id, record, recorded, isDelayed, _, same⟩
        · exact Or.inl isMax
        · exact Or.inr ⟨id, record, recorded, isDelayed, same⟩ }

/-- What the delay stage of a tick does. -/
structure DelayDone (kinds : Kinds) (now : Int64) (before after : JSM) : Prop where
  jobs : JobsOk kinds after
  records : ∀ id, after.recordOf id = (before.recordOf id).map fun record =>
    if before.nextDelayTickAt < now then record.wake now else record
  clients : after.clientView = before.clientView
  maxJobID : after.maxJobID = before.maxJobID
  tickAt : if before.nextDelayTickAt < now then
      after.nextDelayTickAt ≤ maxTime ∧
      (∀ id record, after.recordOf id = some record → record.state = .delayed →
        after.nextDelayTickAt ≤ record.readyAt) ∧
      (after.nextDelayTickAt = maxTime ∨ ∃ id record, after.recordOf id = some record ∧
        record.state = .delayed ∧ record.readyAt = after.nextDelayTickAt)
    else after.nextDelayTickAt = before.nextDelayTickAt

theorem ends_tickDelayStage (inv : JobsOk kinds jsm) (delayedExact : kinds .delayed)
    (walk : TubeWalk) :
    (tickDelayStage now walk jsm).Ends (fun _ after => DelayDone kinds now jsm after)
      (fun _ _ => False) False := by
  unfold tickDelayStage
  rw [Prog.gets_bind]
  split
  next isDue =>
    have isDue : jsm.nextDelayTickAt < now := isDue
    have invReset : JobsOk kinds { jsm with nextDelayTickAt := maxTime } :=
      inv.congr rfl rfl rfl rfl fun key => by cases key <;> rfl
    rw [Prog.bind_apply, Prog.modify_apply, Outcome.ok_andThen]
    refine (ends_tickDelayJobs invReset delayedExact walk).mono ?_ (fun _ _ => False.elim)
      False.elim
    intro _ after woken
    exact
      { jobs := woken.jobs
        records := by
          simp only [if_pos isDue]
          exact woken.records
        clients := woken.clients
        maxJobID := woken.maxJobID
        tickAt := by
          rw [if_pos isDue]
          exact ⟨woken.le_maxTime, woken.le_readyAt, woken.attained⟩ }
  next notDue =>
    have notDue : ¬ jsm.nextDelayTickAt < now := notDue
    exact
      { jobs := inv
        records := fun id => by simp [notDue]
        clients := rfl
        maxJobID := rfl
        tickAt := by rw [if_neg notDue] }

end Walk

end Coolbeans
