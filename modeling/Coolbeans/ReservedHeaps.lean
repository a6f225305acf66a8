import Coolbeans.JobRuns

/-!
# Heaps of reserved jobs

The map of reserved jobs has no empty heap: the heap of a client is made for its first job,
and dropped after the removal of the last one.  This holds in every run, since nothing else
writes the map.
-/

namespace Coolbeans

open FiniteMap PositionHeap StatefulProgram

/-- A client with a heap of reserved jobs has a job in it. -/
def ReservedFilled (jsm : JSM) : Prop :=
  ∀ clientID heap, jsm.reservedJobs.lookup clientID = some heap → heap ≠ []

/-- The heap of the owner has an entry at the position of the given one, and unless that is the
front, it is an entry of a job with the same id. -/
def JSM.StandsReserved (jsm : JSM) (entry : Nat) : Prop :=
  ∃ position item : Nat, (jsm.entryAt entry).index = position ∧
    (jsm.heapAt (.reserved (jsm.jobOf entry).reservedBy))[position]? = some item ∧
    (position = 0 ∨ (jsm.jobOf item).id = (jsm.jobOf entry).id)

namespace ReservedFilled

/-- The invariant reads one field. -/
theorem congr {before after : JSM} (filled : ReservedFilled before)
    (same : after.reservedJobs = before.reservedJobs) : ReservedFilled after := by
  intro clientID heap
  rw [same]
  exact filled clientID heap

theorem reservedJobs_modifyTube (jsm : JSM) (tubeName : TubeName)
    (change : TubeState → TubeState) :
    (jsm.modifyTube tubeName change).reservedJobs = jsm.reservedJobs := by
  unfold JSM.modifyTube
  split <;> rfl

theorem reservedJobs_createTube (jsm : JSM) (tubeName : TubeName) :
    (jsm.createTube tubeName).reservedJobs = jsm.reservedJobs := by
  unfold JSM.createTube
  split <;> rfl

theorem reservedJobs_cleanup (jsm : JSM) (tubeName : TubeName) :
    (jsm.cleanup tubeName).reservedJobs = jsm.reservedJobs := by
  unfold JSM.cleanup
  split
  · rfl
  · split <;> rfl

theorem setHeap {jsm : JSM} (filled : ReservedFilled jsm) (key : HeapKey) {items : List Nat}
    (nonempty : ∀ clientID, key = .reserved clientID → items ≠ []) :
    ReservedFilled (jsm.setHeap key items) := by
  cases key with
  | reserved clientID =>
      intro other heap found
      simp only [JSM.setHeap, lookup_insert] at found
      split at found
      · cases found
        exact nonempty clientID rfl
      · exact filled other heap found
  | ready tubeName | delayed tubeName | buried tubeName =>
      exact filled.congr (reservedJobs_modifyTube _ _ _)

theorem clientClosed : ClientClosed ReservedFilled where
  updateClient _ _ _ filled := filled.congr rfl
  putClientHeap _ _ filled := filled.congr rfl
  setClients _ _ filled := filled.congr rfl
  setWaiting _ _ _ filled := filled.congr (reservedJobs_modifyTube _ _ _)
  createTube _ _ filled := filled.congr (reservedJobs_createTube _ _)
  allocClient _ _ _ filled := filled.congr rfl

/-! ### Programs -/

theorem keeps_updateJob (job : Nat) (change : Job → Job) :
    Prog.Keeps ReservedFilled (updateJob job change) :=
  Prog.keeps_modify fun _ filled => filled.congr rfl

theorem keeps_setEntry (jobID : JobID) (job entry : Nat) :
    Prog.Keeps ReservedFilled (JobIndex.setEntry jobID job entry) :=
  Prog.keeps_modify fun _ filled => filled.congr rfl

theorem keeps_enqueueAt (key : HeapKey) (job : Nat) :
    Prog.Keeps ReservedFilled (enqueueAt key job) := by
  refine (Prog.keeps_gets _).bind fun entry => (Prog.keeps_modify fun _ filled =>
    filled.congr rfl).bind fun _ => (Prog.keeps_modify fun jsm filled => ?_).bind fun _ =>
    Prog.keeps_pure entry
  have pushed := (inserted_push entryStore (jsm.lessIn key) entry (jsm.heapState key)).perm
  refine (filled.setHeap key fun clientID _ isEmpty => ?_).congr rfl
  rw [isEmpty] at pushed
  exact absurd pushed.length_eq (by simp)

theorem keeps_enqueueTubeJob (key : TubeName → HeapKey) (job : Nat) :
    Prog.Keeps ReservedFilled (enqueueTubeJob key job) :=
  (Prog.keeps_gets _).bind fun tubeName => (Prog.keeps_modify fun jsm =>
    clientClosed.createTube jsm tubeName).bind fun _ => keeps_enqueueAt (key tubeName) job

theorem keeps_removeAt {key : HeapKey} (ofTube : ∀ clientID, key ≠ .reserved clientID)
    (entry : Nat) : Prog.Keeps ReservedFilled (removeAt key entry) := by
  intro jsm filled
  unfold removeAt
  dsimp only
  split
  · exact filled
  split
  · trivial
  split
  · trivial
  split
  · exact filled
  · exact (filled.setHeap key fun clientID isKey => absurd isKey (ofTube clientID)).congr rfl

theorem keeps_removeReadyJob (entry : Nat) : Prog.Keeps ReservedFilled (removeReadyJob entry) :=
  (Prog.keeps_gets _).bind fun tubeName => (keeps_getByName_false tubeName).bind fun _ =>
    keeps_removeAt (by simp) entry

theorem keeps_removeBuriedJob (entry : Nat) : Prog.Keeps ReservedFilled (removeBuriedJob entry) :=
  (Prog.keeps_gets _).bind fun tubeName => (keeps_getByName_false tubeName).bind fun _ =>
    keeps_removeAt (by simp) entry

theorem keeps_removeDelayedJob (entry : Nat) :
    Prog.Keeps ReservedFilled (removeDelayedJob entry) := by
  refine (Prog.keeps_gets _).bind fun tubeName => (keeps_getByName_false tubeName).bind fun _ =>
    (keeps_removeAt (by simp) entry).attempt.bind fun removed => (Prog.keeps_modify
    fun jsm filled => filled.congr (reservedJobs_cleanup jsm tubeName)).bind fun _ => ?_
  split
  · exact Prog.keeps_pure _
  · exact Prog.keeps_fail _

theorem dropReserved_putHeap {jsm : JSM} (filled : ReservedFilled jsm) (clientID : ClientID)
    (heap : HeapState Nat (Nat → JobEntry)) :
    ReservedFilled (JSM.dropReserved clientID (jsm.putHeap (.reserved clientID) heap)) := by
  intro other items found
  have lookup : ∀ read, (jsm.putHeap (.reserved clientID) heap).reservedJobs.lookup read =
      if read = clientID then some heap.items else jsm.reservedJobs.lookup read := by
    intro read
    exact lookup_insert _ _ _ _
  unfold JSM.dropReserved at found
  split at found
  next =>
    rw [lookup_erase] at found
    split at found
    · cases found
    next different =>
      rw [lookup, if_neg different] at found
      exact filled other items found
  next kept =>
    rw [lookup] at found
    split at found
    next =>
      cases found
      simpa [JSM.heapAt, lookup] using kept
    next => exact filled other items found

theorem dropReserved_eq {jsm : JSM} (filled : ReservedFilled jsm) {clientID : ClientID}
    (present : (jsm.reservedJobs.lookup clientID).isSome = true) :
    jsm.dropReserved clientID = jsm := by
  obtain ⟨heap, found⟩ := Option.isSome_iff_exists.mp present
  unfold JSM.dropReserved
  rw [if_neg]
  simpa [JSM.heapAt, found] using filled clientID heap found

theorem ends_takeReserved {jsm : JSM} (filled : ReservedFilled jsm) (entry : Nat) :
    ((if (jsm.entryAt entry).index = 0 then dequeueAt (.reserved (jsm.jobOf entry).reservedBy)
      else removeAt (.reserved (jsm.jobOf entry).reservedBy) entry) jsm).Ends
      (fun _ after => ReservedFilled (after.dropReserved (jsm.jobOf entry).reservedBy) ∧
        jsm.StandsReserved entry)
      (fun _ after => after = jsm ∧ ¬ jsm.StandsReserved entry) True := by
  split
  next first =>
    unfold dequeueAt
    split
    · trivial
    next item rest items =>
      exact ⟨filled.dropReserved_putHeap _ _, 0, item, first, by rw [items]; rfl, Or.inl rfl⟩
  next notFirst =>
    unfold removeAt
    dsimp only
    split
    next tooLarge =>
      refine ⟨rfl, fun ⟨position, item, isPosition, occupied, _⟩ => ?_⟩
      obtain ⟨bound, _⟩ := List.getElem?_eq_some_iff.mp occupied
      omega
    split
    · trivial
    split
    · trivial
    next found atPosition =>
    split
    next mismatch =>
      refine ⟨rfl, fun ⟨position, item, isPosition, occupied, place⟩ => ?_⟩
      rw [isPosition, Int.toNat_natCast, occupied] at atPosition
      cases atPosition
      rcases place with isFirst | sameId
      · exact notFirst (by omega)
      · exact mismatch sameId.symm
    next sameId =>
      exact ⟨filled.dropReserved_putHeap _ _, _, found, by omega, atPosition,
        Or.inr (Classical.not_not.mp sameId).symm⟩

theorem ends_removeReservedJob {jsm : JSM} (filled : ReservedFilled jsm) (entry : Nat) :
    (removeReservedJob entry jsm).Ends
      (fun _ after => ReservedFilled after ∧ jsm.StandsReserved entry)
      (fun _ after => after = jsm ∧ ¬ jsm.StandsReserved entry) True := by
  unfold removeReservedJob
  rw [Prog.gets_bind, Prog.gets_bind, Prog.bind_apply, Prog.require_apply]
  split
  next present =>
    rw [Outcome.ok_andThen, Prog.gets_bind]
    refine Prog.ends_attempt_bind ((filled.ends_takeReserved entry).mono
      (fun _ _ taken => taken) (fun _ after fails => ?_) id) fun _ _ taken => taken
    obtain ⟨rfl, misses⟩ := fails
    exact ⟨filled.dropReserved_eq present, misses⟩
  next missing =>
    refine ⟨rfl, fun ⟨position, item, _, occupied, _⟩ => ?_⟩
    rw [Option.not_isSome_iff_eq_none] at missing
    simp [JSM.heapAt, missing] at occupied

theorem keeps_removeReservedJob (entry : Nat) :
    Prog.Keeps ReservedFilled (removeReservedJob entry) :=
  fun _ filled => (filled.ends_removeReservedJob entry).mono (fun _ _ taken => taken.1)
    (fun _ _ fails => fails.1 ▸ filled) id

theorem keeps_move {guard : IndexEntry → Job → JSMProg Unit} {remove : Nat → JSMProg Nat}
    {enqueue : Nat → JSMProg Nat}
    (guards : ∀ found record, Prog.Keeps ReservedFilled (guard found record))
    (removes : ∀ entry, Prog.Keeps ReservedFilled (remove entry))
    (enqueues : ∀ job, Prog.Keeps ReservedFilled (enqueue job)) (jobID : JobID)
    (change : Job → Job) :
    Prog.Keeps ReservedFilled (moveJob jobID guard remove change enqueue) :=
  keeps_moveJob guards removes (fun _ _ filled => filled.congr rfl) enqueues
    (fun _ _ filled => filled.congr rfl) jobID

theorem keeps_leaveReserved {enqueue : Nat → JSMProg Nat}
    (enqueues : ∀ job, Prog.Keeps ReservedFilled (enqueue job)) (error : Err) (jobID : JobID)
    (clientID : ClientID) (change : Job → Job) :
    Prog.Keeps ReservedFilled
      (moveJob jobID (reservedGuard error clientID) removeReservedJob change enqueue) :=
  keeps_move (keeps_reservedGuard error clientID) keeps_removeReservedJob enqueues jobID change

theorem keeps_lowerNextDelayTickAt (readyAt : Int64) :
    Prog.Keeps ReservedFilled (Prog.modify (JSM.lowerNextDelayTickAt readyAt) : JSMProg Unit) := by
  refine Prog.keeps_modify fun jsm filled => ?_
  unfold JSM.lowerNextDelayTickAt
  split
  · exact filled.congr rfl
  · exact filled

theorem keeps_getJob (jobID : JobID) : Prog.Keeps ReservedFilled (getJob jobID) :=
  (keeps_jobIndexGet jobID).bind fun _ => Prog.keeps_gets _

theorem keeps_release (jobID : JobID) (clientID : ClientID) (pri : UInt32) (updatePri : Bool) :
    Prog.Keeps ReservedFilled (fromReservedToReady jobID clientID pri updatePri) :=
  keeps_leaveReserved (keeps_enqueueTubeJob .ready) _ jobID clientID _

theorem keeps_kick (jobID : JobID) : Prog.Keeps ReservedFilled (kick jobID) :=
  keeps_move (keeps_stateGuard .buried) keeps_removeBuriedJob (keeps_enqueueTubeJob .ready)
    jobID Job.kicked

theorem tickRules (nowSecs : Int64) : TickRules nowSecs ReservedFilled fun _ => True where
  toMatchRules := clientClosed.matchRules fun jsm _ _ clientID filled _ =>
    (keeps_move (keeps_stateGuard .ready) keeps_removeReadyJob
      (keeps_enqueueAt (.reserved clientID)) _ _ jsm filled).mono (fun _ _ => id)
      (fun _ _ _ => trivial) id
  timer _ _ filled := filled.congr rfl
  wake jsm _ _ filled _ _ :=
    (keeps_move keeps_delayedGuard keeps_removeDelayedJob (keeps_enqueueTubeJob .ready) _ _ jsm
      filled).mono (fun _ _ => id) (fun _ _ _ => trivial) id
  expire jsm clientID _ filled _ _ :=
    (keeps_release _ clientID 0 false jsm filled).mono (fun _ _ => id) (fun _ _ _ => trivial) id
  clientHeapDequeue := clientClosed.ends_clientHeapDequeue

theorem keeps_put (nowSeconds : Int64) (priority : UInt32) (delay ttr bodySize : Int64)
    (body : Option Bytes) (tubeName : TubeName) :
    Prog.Keeps ReservedFilled (put nowSeconds priority delay ttr bodySize body tubeName) := by
  have add : ∀ job, Prog.Keeps ReservedFilled (JobIndex.add job) := by
    intro job jsm filled
    unfold JobIndex.add
    dsimp only
    split
    · exact filled
    · exact filled.congr rfl
  have enters : ∀ state key job,
      Prog.Keeps ReservedFilled (fromInitialTo state (enqueueTubeJob key) job) := by
    intro state key job
    exact (Prog.keeps_gets _).bind fun record => (Prog.keeps_require _ _).bind fun _ =>
      (add job).bind fun _ => (keeps_updateJob job _).bind fun _ =>
      (keeps_enqueueTubeJob key job).bind fun entry => keeps_setEntry _ job entry
  refine ((Prog.keeps_modify fun _ filled => filled.congr rfl).bind fun _ =>
    Prog.keeps_gets _).bind fun id => ((Prog.keeps_gets _).bind fun addr => (Prog.keeps_modify
    fun _ filled => filled.congr rfl).bind fun _ => Prog.keeps_pure addr).bind fun job => ?_
  split
  · exact (keeps_lowerNextDelayTickAt _).bind fun _ => (enters .delayed .delayed job).bind
      fun _ => Prog.keeps_pure id
  · exact (enters .ready .ready job).bind fun _ => Prog.keeps_pure id

theorem keeps_delete (jobID : JobID) (clientID : ClientID) :
    Prog.Keeps ReservedFilled (delete jobID clientID) := by
  have forgets : Prog.Keeps ReservedFilled (JobIndex.remove jobID) := by
    intro jsm filled
    unfold JobIndex.remove
    split
    · exact filled
    · exact filled.congr rfl
  refine (keeps_jobIndexGet jobID).bind fun found => (Prog.keeps_gets _).bind fun record =>
    (Prog.keeps_require _ _).bind fun _ => forgets.bind fun found => ?_
  split
  · exact (keeps_heapEntry found).bind fun entry => (keeps_removeReadyJob entry).bind fun _ =>
      keeps_updateJob _ _
  · exact (keeps_heapEntry found).bind fun entry => (keeps_removeDelayedJob entry).bind fun _ =>
      keeps_updateJob _ _
  · exact (keeps_heapEntry found).bind fun entry => (keeps_removeReservedJob entry).bind fun _ =>
      keeps_updateJob _ _
  · exact keeps_updateJob _ _

theorem keeps_kickLoop (tubeName : TubeName) (rounds : Nat) (count : Int64) :
    Prog.Keeps ReservedFilled (kickLoop tubeName rounds count) := by
  induction rounds generalizing count with
  | zero => exact Prog.keeps_pure count
  | succ rounds induction =>
      refine (keeps_peekAt _).attempt.bind fun peeked => ?_
      split
      · exact Prog.keeps_pure count
      · exact Prog.keeps_pure 0
      · exact (Prog.keeps_gets _).bind fun record => (keeps_kick _).bind fun _ => induction _

theorem keeps_run (op : Op) : Prog.Keeps ReservedFilled op.run := by
  cases op with
  | put => exact (keeps_put _ _ _ _ _ _ _).map
  | delete jobID clientID => exact (keeps_delete jobID clientID).map
  | getJob jobID => exact (keeps_getJob jobID).map
  | peekDelayedJob => exact (keeps_peekAt _).bind fun _ => Prog.keeps_gets _
  | peekReadyJob => exact (keeps_peekAt _).bind fun _ => Prog.keeps_gets _
  | peekBuriedJob => exact (keeps_peekAt _).bind fun _ => Prog.keeps_gets _
  | release jobID clientID => exact (keeps_release jobID clientID 0 false).map
  | releaseWith nowSeconds jobID clientID pri delay =>
      apply Prog.Keeps.map
      unfold releaseWith
      split
      · exact keeps_release jobID clientID pri true
      · exact (keeps_leaveReserved (keeps_enqueueTubeJob .delayed) _ jobID clientID _).bind fun _ =>
          (keeps_getJob jobID).bind fun record => keeps_lowerNextDelayTickAt record.readyAt
  | touch nowSeconds jobID clientID =>
      exact ((keeps_leaveReserved (keeps_enqueueAt (.reserved clientID)) _ jobID clientID _).bind
        fun _ => (keeps_findClient clientID).bind clientClosed.keeps_updateClientTickAt).map
  | bury nowSeconds jobID priority clientID =>
      exact (keeps_leaveReserved (keeps_enqueueTubeJob .buried) _ jobID clientID _).map
  | kick jobID => exact (keeps_kick jobID).map
  | kickN tubeName n => exact (keeps_kickLoop tubeName _ 0).map
  | appendReservation clientId reqID watchedTubes nowSecs resvDeadlineAt =>
      exact Prog.Keeps.map fun jsm filled => (tickRules nowSecs).ends_appendReservation filled
        (clientClosed.ends_enters filled clientId reqID watchedTubes resvDeadlineAt)
  | tick nowSecs walk => exact ((tickRules nowSecs).keeps_tick walk).map

theorem of_reachable {admits : JSM → Op → Prop} {jsm : JSM} (reachable : Reachable admits jsm) :
    ReservedFilled jsm :=
  reachable.invariant (by simp [ReservedFilled, newJSM])
    fun before op _ _ filled _ steps => steps.keeps (keeps_run op before filled)

end ReservedFilled

end Coolbeans
