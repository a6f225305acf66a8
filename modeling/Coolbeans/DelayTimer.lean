import Coolbeans.ClientRuns

/-!
# The delay timer

A tick looks at the delayed jobs only if `nextDelayTickAt` has passed.  This is
enough because every operation keeps the timer early: it is no later than any
delayed job.
-/

namespace Coolbeans

open FiniteMap PositionHeap StatefulProgram

/-- The delay timer is no later than any delayed job. -/
def DelayTimerOk (jsm : JSM) : Prop :=
  ∀ id record, jsm.recordOf id = some record → record.state = .delayed →
    jsm.nextDelayTickAt ≤ record.readyAt

section DelayTimer

variable {kinds : Kinds} {before after : JSM}

/-- The timer stays early when jobs do not become delayed and it is not moved. -/
theorem DelayTimerOk.of_records (ok : DelayTimerOk before)
    (records : ∀ id record, after.recordOf id = some record → record.state = .delayed →
      before.recordOf id = some record)
    (timer : after.nextDelayTickAt ≤ before.nextDelayTickAt) : DelayTimerOk after := by
  intro id record recorded isDelayed
  exact Int64.le_trans timer (ok id record (records id record recorded isDelayed) isDelayed)

theorem DelayTimerOk.of_jobFrame (ok : DelayTimerOk before) (frame : JobFrame before after)
    (records : ∀ id record, after.recordOf id = some record → record.state = .delayed →
      before.recordOf id = some record) : DelayTimerOk after :=
  ok.of_records records (frame.nextDelayTickAt ▸ Int64.le_refl _)

theorem DelayTimerOk.of_clientFrame (ok : DelayTimerOk before) (frame : ClientFrame before after) :
    DelayTimerOk after := by
  refine ok.of_records (fun id record recorded _ => ?_) ?_
  · rwa [frame.recordOf] at recorded
  · exact frame.nextDelayTickAt ▸ Int64.le_refl _

theorem DelayTimerOk.of_moved {id : JobID} {record next : Job} (ok : DelayTimerOk before)
    (moved : Moved kinds id record next before after) (undelayed : next.state ≠ .delayed) :
    DelayTimerOk after := by
  refine ok.of_jobFrame moved.frame fun other found recorded isDelayed => ?_
  rw [moved.records] at recorded
  split at recorded
  · exact absurd (Option.some.inj recorded ▸ isDelayed) undelayed
  · exact recorded

theorem JSM.delayTickAfterPut_le (jsm : JSM) (nowSeconds delay : Int64) :
    jsm.delayTickAfterPut nowSeconds delay ≤ jsm.nextDelayTickAt ∧
      (0 < delay → jsm.delayTickAfterPut nowSeconds delay ≤ nowSeconds + delay) := by
  unfold JSM.delayTickAfterPut
  split
  next earlier => exact ⟨Int64.le_of_lt earlier.2, fun _ => Int64.le_refl _⟩
  next later =>
    refine ⟨Int64.le_refl _, fun positive => Int64.not_lt.mp fun earlier => ?_⟩
    exact later ⟨positive, earlier⟩

theorem DelayDone.delayTimerOk {now : Int64} (ok : DelayTimerOk before)
    (done : DelayDone kinds now before after) : DelayTimerOk after := by
  have records := done.records
  have tickAt := done.tickAt
  split at tickAt
  next => exact tickAt.2.1
  next early =>
    refine ok.of_records (fun id record recorded isDelayed => ?_) (tickAt ▸ Int64.le_refl _)
    rw [records] at recorded
    simpa [early] using recorded

theorem ServedAll.delayed_before {nowSecs : Int64} {pairs : List (CliPtr × Job)}
    (served : ServedAll kinds nowSecs pairs before after) {id : JobID} {record : Job}
    (recorded : after.recordOf id = some record) (isDelayed : record.state = .delayed) :
    before.recordOf id = some record := by
  by_cases isServed : id ∈ pairs.map fun pair => pair.2.id
  · obtain ⟨pair, inside, rfl⟩ := List.mem_map.mp isServed
    rw [served.served pair inside] at recorded
    rw [← Option.some.inj recorded] at isDelayed
    simp [Job.reservedFor] at isDelayed
  · rwa [served.unserved id isServed] at recorded

theorem ReleasedSome.delayed_before (released : ReleasedSome before after) {id : JobID}
    {record : Job} (recorded : after.recordOf id = some record)
    (isDelayed : record.state = .delayed) : before.recordOf id = some record := by
  rcases released id with same | ⟨old, _, _, isReleased⟩
  · rwa [same] at recorded
  · rw [isReleased] at recorded
    rw [← Option.some.inj recorded] at isDelayed
    simp [Job.released] at isDelayed

section Tick

variable {nowSecs : Int64} {walk : TubeWalk} {matched : List (CliPtr × Job)}
  {processed : List CliPtr} {answers : List Reservation} {woken served : JSM}

theorem TickDone.delayed_woken
    (done : TickDone kinds nowSecs walk matched processed answers before woken served after)
    {id : JobID} {record : Job} (recorded : after.recordOf id = some record)
    (isDelayed : record.state = .delayed) : woken.recordOf id = some record :=
  done.ready.delayed_before (done.clients.released.delayed_before recorded isDelayed) isDelayed

theorem TickDone.delayed_not_overdue (ok : DelayTimerOk before)
    (done : TickDone kinds nowSecs walk matched processed answers before woken served after)
    {id : JobID} {record : Job} (recorded : after.recordOf id = some record)
    (isDelayed : record.state = .delayed) : nowSecs ≤ record.readyAt := by
  have inWoken := done.delayed_woken recorded isDelayed
  rw [done.delay.records] at inWoken
  obtain ⟨old, wasRecorded, isRecord⟩ := Option.map_eq_some_iff.mp inWoken
  by_cases due : before.nextDelayTickAt < nowSecs
  · rw [if_pos due, Job.wake] at isRecord
    split at isRecord
    next => simp [← isRecord] at isDelayed
    next notDue =>
      rw [isRecord] at notDue
      exact Int64.not_lt.mp fun early => notDue ⟨isDelayed, early⟩
  · rw [if_neg due] at isRecord
    subst old
    exact Int64.le_trans (Int64.not_lt.mp due) (ok id record wasRecorded isDelayed)

end Tick

theorem Effect.delayTimerOk {op : Op} {answer : Answer}
    (effect : Effect kinds before op answer after) (ok : DelayTimerOk before) :
    DelayTimerOk after := by
  cases effect with
  | refused same =>
      refine ok.of_jobFrame same.frame fun id record recorded _ => ?_
      rwa [same.recordOf] at recorded
  | looked => exact ok
  | @put nowSeconds _ delay _ _ _ _ _ absent done records =>
      obtain ⟨lower, early⟩ := before.delayTickAfterPut_le nowSeconds delay
      intro id record recorded isDelayed
      rw [done.nextDelayTickAt]
      rw [records] at recorded
      split at recorded
      · have isRecord := Option.some.inj recorded
        split at isRecord
        next positive =>
          rw [← isRecord]
          simpa [Job.initial] using early positive
        next => simp [← isRecord] at isDelayed
      · exact Int64.le_trans lower (ok id record recorded isDelayed)
  | @putTaken nowSeconds _ delay _ _ _ _ _ _ _ done records =>
      refine ok.of_records (fun id record recorded _ => records id ▸ recorded) ?_
      rw [done.nextDelayTickAt]
      exact (before.delayTickAfterPut_le nowSeconds delay).1
  | deleted deleted =>
      refine ok.of_jobFrame deleted.frame fun id record recorded _ => ?_
      rw [deleted.records] at recorded
      split at recorded
      · cases recorded
      · exact recorded
  | @givenUp _ _ _ record next _ _ _ done =>
      intro id found recorded isDelayed
      rw [done.records] at recorded
      split at recorded
      · rw [← Option.some.inj recorded] at isDelayed ⊢
        exact done.tickAtNext isDelayed
      · exact Int64.le_trans done.tickAt (ok id found recorded isDelayed)
  | kicked _ moved => exact ok.of_moved moved (by simp [Job.kicked])
  | kickedSome kicked =>
      refine ok.of_jobFrame kicked.frame fun id record recorded isDelayed => ?_
      rcases kicked.records id with same | ⟨old, _, _, isKicked⟩
      · rwa [same] at recorded
      · rw [isKicked] at recorded
        simp [← Option.some.inj recorded, Job.kicked] at isDelayed
  | touched owned moved _ _ rescheduled =>
      exact (ok.of_moved moved (by simp [owned.1])).of_clientFrame rescheduled.frame
  | touchedOrphan owned moved => exact ok.of_moved moved (by simp [owned.1])
  | appended _ appended =>
      have middle := ok.of_clientFrame appended.asked.frame
      rcases appended.outcome with ⟨_, _, rescheduled⟩ | ⟨_, _, entry, _, served, _⟩
      · exact middle.of_clientFrame rescheduled.frame
      · refine middle.of_records (fun id record recorded isDelayed => ?_) ?_
        · rw [served.records] at recorded
          split at recorded
          · simp [← Option.some.inj recorded, Job.reservedFor] at isDelayed
          · exact recorded
        · exact served.nextDelayTickAt ▸ Int64.le_refl _
  | ticked done =>
      refine (done.delay.delayTimerOk ok).of_records
        (fun id record recorded isDelayed => done.delayed_woken recorded isDelayed) ?_
      rw [done.clients.nextDelayTickAt, done.ready.nextDelayTickAt]
      exact Int64.le_refl _

theorem delayTimerOk_newJSM : DelayTimerOk newJSM := by
  intro id record recorded
  cases recorded

end DelayTimer

end Coolbeans
