import Coolbeans.ArgumentGrammars
import Coolbeans.ClientLines
import Coolbeans.ClientRuns

/-!
# The ranges of delays and times to run

The interface `Job` documents that a delay is below `2 ^ 32` seconds and that a time to run is
between `1` and `2 ^ 32 - 1` seconds, a time of `0` being raised to `1`.  The parser admits
everything below `2 ^ 63`, and `NewJob` and `ReleaseWith` keep what they are given.  So the
ranges hold, and with them the sums that make up the deadlines, exactly for the commands that
respect them.
-/

namespace Coolbeans

open Relation StatefulProgram

/-- The largest delay and the largest time to run, in seconds. -/
def maxSeconds : Int := 2 ^ 32 - 1

/-- A clock from the beginning of Unix time to the year 2242. -/
def InEra (now : Int64) : Prop :=
  0 ≤ now.toInt ∧ now.toInt < 2 ^ 33

/-- The seconds can be those of a delay. -/
def IsDelay (seconds : Int64) : Prop :=
  0 ≤ seconds.toInt ∧ seconds.toInt ≤ maxSeconds

/-- The seconds can be those of a time to run. -/
def IsTTR (seconds : Int64) : Prop :=
  1 ≤ seconds.toInt ∧ seconds.toInt ≤ maxSeconds

/-- The ranges that the interface `Job` documents. -/
structure Job.InRange (job : Job) : Prop where
  delay : IsDelay job.delay
  ttr : IsTTR job.ttr

/-- The job gets ready its delay after the clock; the sum does not wrap around. -/
structure Job.ReadyOnTime (now : Int64) (job : Job) : Prop where
  sum : job.readyAt.toInt = now.toInt + job.delay.toInt
  notEarlier : now ≤ job.readyAt

/-- The reservation expires its time to run after the clock; the sum does not wrap around. -/
structure Job.ExpiresOnTime (now : Int64) (job : Job) : Prop where
  sum : job.expiresAt.toInt = now.toInt + job.ttr.toInt
  later : now < job.expiresAt

section Sums

variable {now seconds : Int64}

theorem toInt_add_of_inEra (inEra : InEra now) (lower : 0 ≤ seconds.toInt)
    (upper : seconds.toInt ≤ maxSeconds) : (now + seconds).toInt = now.toInt + seconds.toInt := by
  unfold InEra at inEra
  unfold maxSeconds at upper
  rw [Int64.toInt_add]
  apply Int.bmod_eq_of_le <;> omega

theorem Job.ReadyOnTime.of_sum {job : Job} (inEra : InEra now) (inRange : IsDelay job.delay)
    (isSum : job.readyAt = now + job.delay) : job.ReadyOnTime now := by
  have sum : job.readyAt.toInt = now.toInt + job.delay.toInt := by
    rw [isSum]
    exact toInt_add_of_inEra inEra inRange.1 inRange.2
  have nonneg := inRange.1
  exact ⟨sum, Int64.le_iff_toInt_le.mpr (by omega)⟩

theorem Job.ExpiresOnTime.of_sum {job : Job} (inEra : InEra now) (inRange : IsTTR job.ttr)
    (isSum : job.expiresAt = now + job.ttr) : job.ExpiresOnTime now := by
  have positive := inRange.1
  have sum : job.expiresAt.toInt = now.toInt + job.ttr.toInt := by
    rw [isSum]
    exact toInt_add_of_inEra inEra (by omega) inRange.2
  exact ⟨sum, Int64.lt_iff_toInt_lt.mpr (by omega)⟩

end Sums

/-! ## Moves -/

/-- The clock is that of the era, and a put or a release respects the ranges. -/
def Op.InRange (op : Op) : Prop :=
  (∀ now, op.clock? = some now → InEra now) ∧
    match op with
    | .put _ _ delay ttr _ _ _ => IsDelay delay ∧ IsTTR ttr
    | .releaseWith _ _ _ _ delay => IsDelay delay
    | _ => True

/-- What a move makes of a job is in its ranges.  If the move sets the time at which the job
gets ready, and if it reserves or touches the job, the deadline is the exact sum. -/
structure Punctual (op : Op) (was next : Option Job) : Prop where
  inRange : ∀ job, next = some job → job.InRange
  ready : ∀ job, next = some job →
    (∃ old, was = some old ∧ job.readyAt = old.readyAt ∧ job.delay = old.delay) ∨
      ∃ now, op.clock? = some now ∧ job.ReadyOnTime now
  expires : ∀ job, next = some job → job.state = .reserved →
    ∃ now, op.clock? = some now ∧ job.ExpiresOnTime now

/-- The records stay as they are, or one of them makes a punctual move. -/
inductive PunctualMoves (op : Op) (before after : JSM) : Prop where
  | rests (same : after.recordOf = before.recordOf)
  | makes {id : JobID} {next : Option Job} (move : Move op before id (before.recordOf id) next)
      (punctual : Punctual op (before.recordOf id) next)
      (records : ∀ other, after.recordOf other = if other = id then next else before.recordOf other)

/-- All the jobs of the state are in their ranges. -/
def JSM.JobsInRange (jsm : JSM) : Prop :=
  ∀ id job, jsm.recordOf id = some job → job.InRange

section Moves

variable {op : Op} {before after jsm : JSM} {id : JobID} {was next : Option Job}

theorem Punctual.of_some {job : Job} (inRange : job.InRange)
    (ready : (∃ old, was = some old ∧ job.readyAt = old.readyAt ∧ job.delay = old.delay) ∨
      ∃ now, op.clock? = some now ∧ job.ReadyOnTime now)
    (expires : job.state = .reserved → ∃ now, op.clock? = some now ∧ job.ExpiresOnTime now) :
    Punctual op was (some job) := by
  constructor
  all_goals
    intro other same
    cases same
  · exact inRange
  · exact ready
  · exact expires

theorem Punctual.of_same {record job : Job} (inRange : record.InRange)
    (delay : job.delay = record.delay) (ttr : job.ttr = record.ttr)
    (readyAt : job.readyAt = record.readyAt) (leaves : job.state ≠ .reserved) :
    Punctual op (some record) (some job) :=
  .of_some ⟨delay ▸ inRange.delay, ttr ▸ inRange.ttr⟩ (Or.inl ⟨record, rfl, readyAt, delay⟩)
    fun isReserved => absurd isReserved leaves

theorem Punctual.of_reserved {record job : Job} {now : Int64} (inRange : record.InRange)
    (isClock : op.clock? = some now) (inEra : InEra now)
    (delay : job.delay = record.delay) (ttr : job.ttr = record.ttr)
    (readyAt : job.readyAt = record.readyAt) (expiresAt : job.expiresAt = now + job.ttr) :
    Punctual op (some record) (some job) := by
  have isTTR : IsTTR job.ttr := ttr ▸ inRange.ttr
  exact .of_some ⟨delay ▸ inRange.delay, isTTR⟩ (Or.inl ⟨record, rfl, readyAt, delay⟩)
    fun _ => ⟨now, isClock, .of_sum inEra isTTR expiresAt⟩

theorem Punctual.of_delayed {job : Job} {now : Int64} (inRange : job.InRange)
    (isClock : op.clock? = some now) (inEra : InEra now) (readyAt : job.readyAt = now + job.delay)
    (leaves : job.state ≠ .reserved) : Punctual op was (some job) :=
  .of_some inRange (Or.inr ⟨now, isClock, .of_sum inEra inRange.delay readyAt⟩)
    fun isReserved => absurd isReserved leaves

theorem Move.punctual (move : Move op jsm id was next) (opInRange : op.InRange)
    (wasInRange : ∀ job, was = some job → job.InRange) : Punctual op was next := by
  cases move with
  | @entered nowSeconds priority delay ttr bodySize body tubeName puts =>
      subst puts
      obtain ⟨clocks, isDelay, isTTR⟩ := opInRange
      refine .of_delayed ⟨?_, ?_⟩ rfl (clocks nowSeconds rfl) ?_ ?_
      · simpa [Job.initial] using isDelay
      · simpa [Job.initial] using isTTR
      · simp [Job.initial]
      · split <;> simp
  | woken ticks due leaves =>
      exact .of_same (wasInRange _ rfl) (by simp) (by simp) (by simp) (by simp)
  | @matched nowSecs clientID record serves leaves =>
      have isClock : op.clock? = some nowSecs := by
        cases op <;> first | exact serves | cases serves
      exact .of_reserved (wasInRange _ rfl) isClock (opInRange.1 nowSecs isClock)
        (by simp [Job.reservedFor]) (by simp [Job.reservedFor]) (by simp [Job.reservedFor])
        (by simp [Job.reservedFor])
  | expired ticks held isEntry due owned =>
      exact .of_same (wasInRange _ rfl) (by simp [Job.released]) (by simp [Job.released])
        (by simp [Job.released]) (by simp [Job.released])
  | released asks owned =>
      exact .of_same (wasInRange _ rfl) (by simp [Job.released]) (by simp [Job.released])
        (by simp [Job.released]) (by simp [Job.released])
  | releasedNow asks isNow owned =>
      exact .of_same (wasInRange _ rfl) (by simp [Job.released]) (by simp [Job.released])
        (by simp [Job.released]) (by simp [Job.released])
  | @releasedLater nowSeconds delay clientID pri record asks isLater owned =>
      subst asks
      obtain ⟨clocks, isDelay⟩ := opInRange
      refine .of_delayed ⟨?_, ?_⟩ rfl (clocks nowSeconds rfl) ?_ ?_
      · simpa [Job.releasedWithDelay] using isDelay
      · simpa [Job.releasedWithDelay] using (wasInRange _ rfl).ttr
      · simp [Job.releasedWithDelay]
      · simp [Job.releasedWithDelay]
  | @touched nowSeconds clientID record asks owned =>
      subst asks
      exact .of_reserved (wasInRange _ rfl) rfl (opInRange.1 nowSeconds rfl) rfl rfl rfl rfl
  | buried asks owned =>
      exact .of_same (wasInRange _ rfl) (by simp [Job.buriedWith]) (by simp [Job.buriedWith])
        (by simp [Job.buriedWith]) (by simp [Job.buriedWith])
  | kicked asks leaves =>
      exact .of_same (wasInRange _ rfl) (by simp [Job.kicked]) (by simp [Job.kicked])
        (by simp [Job.kicked]) (by simp [Job.kicked])
  | kickedFirst asks held isEntry leaves =>
      exact .of_same (wasInRange _ rfl) (by simp [Job.kicked]) (by simp [Job.kicked])
        (by simp [Job.kicked]) (by simp [Job.kicked])
  | deleted asks => exact ⟨by simp, by simp, by simp⟩

theorem JSM.JobsInRange.moves (inRange : before.JobsInRange) (opInRange : op.InRange)
    (moves : Moves op before after) : PunctualMoves op before after ∧ after.JobsInRange := by
  cases moves with
  | rests same =>
      refine ⟨.rests same, fun id job recorded => inRange id job ?_⟩
      rw [← same]
      exact recorded
  | @makes moved next move records =>
      have punctual := move.punctual opInRange (inRange moved)
      refine ⟨.makes move punctual records, fun id job recorded => ?_⟩
      rw [records] at recorded
      split at recorded
      next => exact punctual.inRange job recorded
      next => exact inRange id job recorded

/-- A step of an operation in its ranges is a chain of punctual moves. -/
theorem JSM.JobsInRange.step {answer : Answer} (inRange : before.JobsInRange)
    (jobs : JobsOk .anyRun before) (opInRange : op.InRange)
    (steps : op.Steps before answer after) :
    ReflTransGen (PunctualMoves op) before after ∧ after.JobsInRange := by
  have moves := (along_of_steps jobs steps).moves
  clear steps
  induction moves with
  | refl => exact ⟨.refl, inRange⟩
  | tail _ moves induction =>
      obtain ⟨chain, middleInRange⟩ := induction
      obtain ⟨punctual, lastInRange⟩ := middleInRange.moves opInRange moves
      exact ⟨chain.tail punctual, lastInRange⟩

theorem jobsInRange_of_reachable (reachable : Reachable (fun _ op => op.InRange) jsm) :
    jsm.JobsInRange := by
  let invariant (state : JSM) : Prop := JobsOk .anyRun state ∧ state.JobsInRange
  have kept : invariant jsm := by
    refine reachable.invariant ⟨jobsOk_newJSM .anyRun, fun id job recorded => by
      cases recorded⟩ ?_
    rintro before op answer after ⟨jobs, inRange⟩ opInRange steps
    exact ⟨(along_of_steps jobs steps).jobs, (inRange.step jobs opInRange steps).2⟩
  exact kept.2

end Moves

/-! ## Commands -/

/-- The job that a put has made is as the interface documents it. -/
def PutAsDocumented (now : Int64) (arg : PutArg) (id : JobID) (after : JSM) : Prop :=
  ∃ job, after.recordOf id = some job ∧ job.InRange ∧ job.delay = arg.delay ∧
    job.ttr.toInt = max 1 arg.ttr.toInt ∧ job.ReadyOnTime now

/-- The job that a release has given up is as the interface documents it.  A release without a
delay sets no deadline. -/
def ReleaseAsDocumented (now : Int64) (arg : ReleaseArg) (was : Job) (after : JSM) : Prop :=
  ∃ job, after.recordOf arg.id = some job ∧ job.InRange ∧
    if arg.delay = 0 then job.delay = was.delay ∧ job.readyAt = was.readyAt
    else job.delay = arg.delay ∧ job.ReadyOnTime now

section Commands

variable {jsm after : JSM} {now : Int64}

theorem record_of_put {priority : UInt32} {delay ttr bodySize : Int64} {body : Option Bytes}
    {tubeName : TubeName} {id : JobID} (jobs : JobsOk .anyRun jsm)
    (puts : put now priority delay ttr bodySize body tubeName jsm = .ok id after) :
    ∃ job, after.recordOf id = some job ∧ job.delay = delay ∧ job.ttr = ttr ∧
      job.readyAt = now + delay := by
  have done := ends_put jobs now priority delay ttr bodySize body tubeName
  rw [puts] at done
  obtain ⟨_, _, _, records⟩ := done
  refine ⟨_, (records id).trans (if_pos rfl), ?_, ?_, ?_⟩
  · simp [Job.initial]
  · simp [Job.initial]
  · simp [Job.initial]

theorem record_of_releaseWith {id : JobID} {clientID : ClientID} {pri : UInt32} {delay : Int64}
    {was : Job} (jobs : JobsOk .anyRun jsm) (recorded : jsm.recordOf id = some was)
    (releases : releaseWith now id clientID pri delay jsm = .ok () after) :
    ∃ job, after.recordOf id = some job ∧ job.ttr = was.ttr ∧
      if delay = 0 then job.delay = was.delay ∧ job.readyAt = was.readyAt
      else job.delay = delay ∧ job.readyAt = now + delay := by
  unfold releaseWith at releases
  split at releases
  next isNow =>
    have done : (fromReservedToReady id clientID pri true jsm).Ends _ _ _ :=
      ends_fromReservedToReady jobs clientID pri true
    rw [releases] at done
    obtain ⟨record, _, moved⟩ := done
    have isWas := moved.was.symm.trans recorded
    cases isWas
    refine ⟨_, (moved.records id).trans (if_pos rfl), ?_, ?_⟩
    · simp [Job.released]
    · simp [isNow, Job.released]
  next isLater =>
    have done : (fromReservedToDelayed now id clientID pri delay jsm).Ends _ _ _ :=
      ends_fromReservedToDelayed jobs now clientID pri delay
    rw [releases] at done
    obtain ⟨record, middle, _, moved, rfl⟩ := done
    have isWas := moved.was.symm.trans recorded
    cases isWas
    rw [JSM.lowerNextDelayTickAt_eq]
    refine ⟨_, (moved.records id).trans (if_pos rfl), ?_, ?_⟩
    · simp [Job.releasedWithDelay]
    · simp [isLater, Job.releasedWithDelay]

theorem record_of_touch {id : JobID} {clientID : ClientID} (ok : AnyRunOk jsm)
    (touches : touch now id clientID jsm = .ok () after) :
    ∃ was, jsm.recordOf id = some was ∧ after.recordOf id = some (was.updateReservation now) := by
  obtain ⟨_, middle, moves, finds⟩ := Prog.ok_of_bind touches
  obtain ⟨cli, same, finds, updates⟩ := Prog.ok_of_bind finds
  have moved : (moveJob id _ _ _ _ jsm).Ends _ _ _ :=
    ends_touchMove ok.jobs now clientID fun isHeld => absurd rfl isHeld
  have kept := @keeps_findClient (· = middle) clientID middle rfl
  rw [moves] at moved
  rw [finds] at kept
  obtain ⟨was, _, moved⟩ := moved
  subst kept
  have okSame := ok.of_clientView moved.inv moved.frame.clients
  have repositioned : (updateClientTickAt cli same).Ends _ _ _ :=
    repositions_updateClientTickAt okSame.lines.tracked
  rw [updates] at repositioned
  exact ⟨was, moved.was, by rw [repositioned.frame.recordOf, moved.records, if_pos rfl]⟩

theorem putAsDocumented_iff {data : CmdData} {arg : PutArg} {body : Option Bytes}
    {tubeName : TubeName} {id : JobID} (jobs : JobsOk .anyRun jsm)
    (accepted : newPutArg data = .ok arg) (inEra : InEra now)
    (puts : put now arg.pri arg.delay arg.ttr arg.size body tubeName jsm = .ok id after) :
    PutAsDocumented now arg id after ↔ arg.delay.toInt ≤ maxSeconds ∧ IsTTR arg.ttr := by
  obtain ⟨job, recorded, delay, ttr, readyAt⟩ := record_of_put jobs puts
  constructor
  · rintro ⟨other, isOther, inRange, _⟩
    have same := recorded.symm.trans isOther
    cases same
    exact ⟨delay ▸ inRange.delay.2, ttr ▸ inRange.ttr⟩
  · rintro ⟨upper, isTTR⟩
    have nonneg : 0 ≤ arg.delay.toInt :=
      decodesGroups_newPutArg.nonneg (by simp) accepted _ (by simp [PutArg.fields])
    have isDelay : IsDelay job.delay := delay ▸ ⟨nonneg, upper⟩
    have positive := isTTR.1
    refine ⟨job, recorded, ⟨isDelay, ttr ▸ isTTR⟩, delay, ?_, .of_sum inEra isDelay ?_⟩
    · rw [ttr]
      omega
    · rw [readyAt, delay]

theorem releaseAsDocumented_iff {data : CmdData} {arg : ReleaseArg} {clientID : ClientID}
    {was : Job} (jobs : JobsOk .anyRun jsm) (accepted : newReleaseArg data = .ok arg)
    (inEra : InEra now) (recorded : jsm.recordOf arg.id = some was)
    (releases : releaseWith now arg.id clientID arg.pri arg.delay jsm = .ok () after) :
    ReleaseAsDocumented now arg was after ↔ IsTTR was.ttr ∧
      if arg.delay = 0 then IsDelay was.delay else arg.delay.toInt ≤ maxSeconds := by
  obtain ⟨job, left, ttr, deadline⟩ := record_of_releaseWith jobs recorded releases
  have ranges : job.InRange ↔ IsTTR was.ttr ∧
      if arg.delay = 0 then IsDelay was.delay else arg.delay.toInt ≤ maxSeconds := by
    have nonneg : 0 ≤ arg.delay.toInt :=
      decodesGroups_newReleaseArg.nonneg (by simp) accepted _ (by simp [ReleaseArg.fields])
    split at deadline
    next isNow =>
      rw [if_pos isNow, ← ttr, ← deadline.1]
      exact ⟨fun inRange => ⟨inRange.ttr, inRange.delay⟩, fun holds => ⟨holds.2, holds.1⟩⟩
    next isLater =>
      rw [if_neg isLater, ← ttr, ← deadline.1]
      rw [← deadline.1] at nonneg
      exact ⟨fun inRange => ⟨inRange.ttr, inRange.delay.2⟩,
        fun holds => ⟨⟨nonneg, holds.2⟩, holds.1⟩⟩
  rw [← ranges]
  constructor
  · rintro ⟨other, isOther, inRange, _⟩
    have same := left.symm.trans isOther
    cases same
    exact inRange
  · intro inRange
    refine ⟨job, left, inRange, ?_⟩
    split at deadline
    next isNow =>
      rw [if_pos isNow]
      exact deadline
    next isLater =>
      rw [if_neg isLater]
      refine ⟨deadline.1, .of_sum inEra inRange.delay ?_⟩
      rw [deadline.2, deadline.1]

end Commands

/-- A put is as documented just if its delay and its time to run are in their ranges, and a
release just if its delay is and the job was.  In a run of such commands, every job is always in
its ranges, all deadlines are exact sums, and a touch sets the deadline of its job. -/
theorem deadlines_asDocumented_iff {admits : JSM → Op → Prop} {jsm : JSM}
    (reachable : Reachable admits jsm) {now : Int64} (inEra : InEra now) :
    (∀ data arg body tubeName id after, newPutArg data = .ok arg →
      put now arg.pri arg.delay arg.ttr arg.size body tubeName jsm = .ok id after →
      (PutAsDocumented now arg id after ↔ arg.delay.toInt ≤ maxSeconds ∧ IsTTR arg.ttr)) ∧
    (∀ data arg clientID was after, newReleaseArg data = .ok arg →
      jsm.recordOf arg.id = some was →
      releaseWith now arg.id clientID arg.pri arg.delay jsm = .ok () after →
      (ReleaseAsDocumented now arg was after ↔ IsTTR was.ttr ∧
        if arg.delay = 0 then IsDelay was.delay else arg.delay.toInt ≤ maxSeconds)) ∧
    ∀ state, Reachable (fun _ op => op.InRange) state → state.JobsInRange ∧
      (∀ op answer after, op.InRange → op.Steps state answer after →
        ReflTransGen (PunctualMoves op) state after) ∧
      ∀ clock id clientID after, InEra clock → touch clock id clientID state = .ok () after →
        ∃ job, after.recordOf id = some job ∧ job.ExpiresOnTime clock := by
  have jobs := jobsOk_anyRun_of_reachable reachable
  refine ⟨?_, ?_, ?_⟩
  · intro data arg body tubeName id after accepted puts
    exact putAsDocumented_iff jobs accepted inEra puts
  · intro data arg clientID was after accepted recorded releases
    exact releaseAsDocumented_iff jobs accepted inEra recorded releases
  · intro state reachable
    have inRange := jobsInRange_of_reachable reachable
    refine ⟨inRange, fun op answer after opInRange steps =>
      (inRange.step (jobsOk_anyRun_of_reachable reachable) opInRange steps).1, ?_⟩
    intro clock id clientID after inEra touches
    obtain ⟨was, recorded, left⟩ := record_of_touch (anyRunOk_of_reachable reachable) touches
    exact ⟨_, left, .of_sum inEra (inRange id was recorded).ttr rfl⟩

/-- A job in its ranges is reserved, touched and released with the longest delay. -/
def longestDelay : List Op :=
  [.put 10 1 0 4294967295 0 none [116], .appendReservation [7] [1] [[116]] 8589934591 8589934600,
    .touch 8589934591 1 [7]]

def releaseLongest : CmdData where
  cmdType := .release
  args := text "1 0 4294967295"

theorem deadlines_asDocumented_iff_longestDelay :
    (stateAfter longestDelay).JobsInRange ∧
      ∃ arg was after, newReleaseArg releaseLongest = .ok arg ∧
        (stateAfter longestDelay).recordOf arg.id = some was ∧
        releaseWith 8589934591 arg.id [7] arg.pri arg.delay (stateAfter longestDelay) =
          .ok () after ∧ ReleaseAsDocumented 8589934591 arg was after := by
  have opsInRange : ∀ op ∈ longestDelay, op.InRange := by
    simp only [longestDelay, List.forall_mem_cons]
    refine ⟨⟨?_, ?_⟩, ⟨?_, trivial⟩, ⟨?_, trivial⟩, by simp⟩
    · rintro now ⟨⟩
      exact ⟨by decide, by decide⟩
    · exact ⟨⟨by decide, by decide⟩, by decide, by decide⟩
    · rintro now ⟨⟩
      exact ⟨by decide, by decide⟩
    · rintro now ⟨⟩
      exact ⟨by decide, by decide⟩
  have reachable : Reachable (fun _ op => op.InRange) (stateAfter longestDelay) :=
    reachable_stateAfter _ fun op member _ => opsInRange op member
  have inEra : InEra 8589934591 := ⟨by decide, by decide⟩
  obtain ⟨_, release_iff, runs⟩ := deadlines_asDocumented_iff reachable inEra
  obtain ⟨inRange, _⟩ := runs _ reachable
  have accepted : newReleaseArg releaseLongest = .ok ⟨1, 0, 4294967295⟩ := by decide +kernel
  obtain ⟨was, recorded⟩ : ∃ was, (stateAfter longestDelay).recordOf 1 = some was :=
    Option.isSome_iff_exists.mp (by decide +kernel)
  have released : (releaseWith 8589934591 1 [7] 0 4294967295 (stateAfter longestDelay)).reply? =
      some (.ok ()) := by decide +kernel
  cases outcome : releaseWith 8589934591 1 [7] 0 4294967295 (stateAfter longestDelay) with
  | ok value after =>
      refine ⟨inRange, ⟨1, 0, 4294967295⟩, was, after, accepted, recorded, outcome, ?_⟩
      rw [release_iff _ _ _ _ _ accepted recorded outcome]
      refine ⟨(inRange 1 was recorded).ttr, ?_⟩
      rw [if_neg (by decide)]
      decide
  | err error after =>
      rw [outcome] at released
      cases released
  | panic cause =>
      rw [outcome] at released
      cases released

/-- A put with a delay that the parser admits and no time to run. -/
def putEndless : CmdData where
  cmdType := .put
  args := text "0 9223372036854775807 0 0"

def afterEndless : JSM :=
  stateAfter [.put 1 0 9223372036854775807 0 0 none [116]]

theorem endlessDelay_passed :
    ∃ arg after, newPutArg putEndless = .ok arg ∧
      put 1 arg.pri arg.delay arg.ttr arg.size none [116] newJSM = .ok 1 after ∧
      (after.recordOf 1).map (fun job => (job.ttr.toInt, job.delay.toInt, job.readyAt.toInt)) =
        some (0, 2 ^ 63 - 1, -2 ^ 63) ∧
      ¬ PutAsDocumented 1 arg 1 after := by
  have accepted : newPutArg putEndless = .ok ⟨0, 9223372036854775807, 0, 0, none⟩ := by
    decide +kernel
  have kept : (afterEndless.recordOf 1).map (fun job =>
      (job.ttr.toInt, job.delay.toInt, job.readyAt.toInt)) = some (0, 2 ^ 63 - 1, -2 ^ 63) := by
    decide +kernel
  refine ⟨⟨0, 9223372036854775807, 0, 0, none⟩, afterEndless, accepted, rfl, kept, ?_⟩
  rintro ⟨job, recorded, inRange, _⟩
  rw [recorded, Option.map_some, Option.some.injEq, Prod.mk.injEq] at kept
  have positive := inRange.ttr.1
  rw [kept.1] at positive
  omega

end Coolbeans
