import Coolbeans.ClientLines
import Coolbeans.TickClients

/-!
# The inner loop of tickClients ends

Each round of the inner loop releases a job of the client, answers the client, or stops.  The
loop ends in every run.  In some runs a job is not on the reserved heap of its client; then a
round may release a job and leave that heap as it is, but only once, since the next round finds
the same job no longer reserved and panics.
-/

namespace Coolbeans

open FiniteMap PositionHeap StatefulProgram

/-! ## Panics -/

section Avoids

theorem avoids_removeAt (key : HeapKey) (entry : Nat) :
    Prog.Avoids .loopForever (removeAt key entry) := by
  intro jsm panics
  unfold removeAt at panics
  dsimp only at panics
  split at panics
  · cases panics
  split at panics
  · cases panics
  split at panics
  · cases panics
  split at panics <;> cases panics

theorem avoids_dequeueAt (key : HeapKey) : Prog.Avoids .loopForever (dequeueAt key) := by
  intro jsm panics
  unfold dequeueAt at panics
  split at panics <;> cases panics

theorem avoids_removeReservedJob (entry : Nat) :
    Prog.Avoids .loopForever (removeReservedJob entry) := by
  refine (Prog.avoids_gets _).bind fun clientID => (Prog.avoids_gets _).bind fun present =>
    (Prog.avoids_require _ _).bind fun _ => (Prog.avoids_gets _).bind fun index =>
    Prog.Avoids.bind (Prog.Avoids.attempt ?_) fun removed =>
    (Prog.avoids_modify _).bind fun _ => ?_
  · split
    · exact avoids_dequeueAt _
    · exact avoids_removeAt _ entry
  · split
    · exact Prog.avoids_pure _
    · exact Prog.avoids_fail _

theorem avoids_release (jobID : JobID) (clientID : ClientID) :
    Prog.Avoids .loopForever (release jobID clientID) := by
  have get : Prog.Avoids Panic.loopForever (JobIndex.get jobID) := by
    intro jsm panics
    unfold JobIndex.get at panics
    split at panics <;> cases panics
  have heapEntry : ∀ found : IndexEntry, Prog.Avoids Panic.loopForever found.heapEntry := by
    intro found
    unfold IndexEntry.heapEntry
    cases found.entry with
    | none => exact Prog.avoids_crash (by simp)
    | some entry => exact Prog.avoids_pure entry
  have enqueue : ∀ job, Prog.Avoids Panic.loopForever (enqueueReadyJob job) := by
    intro job
    refine (Prog.avoids_gets _).bind fun tubeName => (Prog.avoids_modify _).bind fun _ => ?_
    exact (Prog.avoids_gets _).bind fun entry => (Prog.avoids_modify _).bind fun _ =>
      (Prog.avoids_modify _).bind fun _ => Prog.avoids_pure _
  refine get.bind fun found => (Prog.avoids_gets _).bind fun record =>
    Prog.Avoids.bind ?_ fun _ => (heapEntry found).bind fun entry =>
    (avoids_removeReservedJob entry).bind fun _ => (Prog.avoids_modify _).bind fun _ =>
    (enqueue found.job).bind fun _ => Prog.avoids_modify _
  exact (Prog.avoids_require _ _).bind fun _ => Prog.avoids_require _ _

end Avoids

/-! ## A round of the inner loop -/

/-- A round of the inner loop of `tickClients` that goes on: it has released the first reserved
job of the client, or answered the client. -/
inductive JobRound (nowSecs : Int64) (cli : CliPtr) (before after : JSM) : Prop where
  | releases {entry : Nat} (head : (before.heapAt (.reserved cli.cliID)).head? = some entry)
      (expired : (before.jobOf entry).expiresAt < nowSecs)
      (returns : release (before.jobOf entry).id cli.cliID before = .ok () after)
  | answers {entry : Nat} (head : (before.heapAt (.reserved cli.cliID)).head? = some entry)
      (unexpired : ¬ (before.jobOf entry).expiresAt < nowSecs)
      (soon : (before.jobOf entry).expiresAt - 1 < nowSecs)
      (waiting : (before.clientAt cli).isWaitingForResv = true)
      (returns : unReserve cli before = .ok () after)

/-- The client has no job that has expired, nor, if it waits, one that expires soon. -/
def JSM.Quiet (jsm : JSM) (nowSecs : Int64) (cli : CliPtr) : Prop :=
  ∀ expiresAt, jsm.firstExpiry cli.cliID = some expiresAt → nowSecs ≤ expiresAt ∧
    ((jsm.clientAt cli).isWaitingForResv = true → nowSecs ≤ expiresAt - 1)

/-- One reserved job has been released, and no other job has changed. -/
def ReleasesOne (before after : JSM) : Prop :=
  ∃ id record, before.recordOf id = some record ∧ record.state = .reserved ∧
    ∀ other, after.recordOf other =
      if other = id then some (record.released 0 false) else before.recordOf other

/-- The client waits no longer, and no job has changed. -/
def ClearsFlag (cli : CliPtr) (before after : JSM) : Prop :=
  (before.clientAt cli).isWaitingForResv = true ∧
    (after.clientAt cli).isWaitingForResv = false ∧ after.recordOf = before.recordOf

section Rounds

variable {nowSecs : Int64} {cli : CliPtr} {before after : JSM}

/-- The first job on the reserved heap of a client is released where the heaps are exact. -/
theorem JobsOk.ends_release_first {jsm : JSM} (owned : JobsOk .ownTouches jsm)
    {clientID : ClientID} {entry : Nat}
    (head : (jsm.heapAt (.reserved clientID)).head? = some entry) :
    (release (jsm.jobOf entry).id clientID jsm).Ends (fun _ => JobsOk .ownTouches)
      (fun _ _ => False) False := by
  obtain ⟨recorded, home⟩ := owned.recordOf_jobOf (.reserved clientID)
    (by simp [Kinds.ownTouches, HeapKey.kind]) (List.mem_of_head? head)
  obtain ⟨isReserved, isOwner⟩ := (Job.home_eq_reserved_iff _ _).mp home
  apply (ends_fromReservedToReady owned clientID 0 false).mono
  · rintro _ after ⟨_, _, moved⟩
    exact moved.inv
  · rintro _ after ⟨_, refused⟩
    exact refused trivial _ recorded ⟨isReserved, Or.inr isOwner⟩
  · exact fun unheld => unheld trivial

/-- A round goes on, stops the loop, or ends the process where the heaps are not exact. -/
theorem AnyRunOk.tickClientJobs_round {jsm : JSM} (ok : AnyRunOk jsm) (rounds : Nat)
    (result : List Reservation) :
    tickClientJobs nowSecs cli (rounds + 1) result jsm = .ok result jsm ∧ jsm.Quiet nowSecs cli ∨
    (∃ after more, JobRound nowSecs cli jsm after ∧
      tickClientJobs nowSecs cli (rounds + 1) result jsm =
        tickClientJobs nowSecs cli rounds more after) ∨
    ∃ cause, (cause ≠ .loopForever ∧ ¬ JobsOk .ownTouches jsm) ∧
      tickClientJobs nowSecs cli (rounds + 1) result jsm = .panic cause := by
  cases head : (jsm.heapAt (.reserved cli.cliID)).head? with
  | none =>
      left
      refine ⟨tickClientJobs_of_none head, ?_⟩
      intro expiresAt expires
      rw [JSM.firstExpiry, head] at expires
      cases expires
  | some entry =>
  by_cases expired : (jsm.jobOf entry).expiresAt < nowSecs
  · right
    rw [tickClientJobs_of_expired head expired, Prog.bind_apply, Prog.orCrash]
    have inexact : (∀ after, release (jsm.jobOf entry).id cli.cliID jsm ≠ .ok () after) →
        ¬ JobsOk .ownTouches jsm := by
      intro refuses owned
      obtain ⟨_, after, returns, _⟩ := (owned.ends_release_first head).returns
      exact refuses after returns
    cases outcome : release (jsm.jobOf entry).id cli.cliID jsm with
    | ok value after => exact Or.inl ⟨after, result, .releases head expired outcome, rfl⟩
    | err error after => exact Or.inr ⟨.release, ⟨by simp, inexact (by simp [outcome])⟩, rfl⟩
    | panic cause =>
        exact Or.inr ⟨cause, ⟨fun same => avoids_release _ _ jsm (same ▸ outcome),
          inexact (by simp [outcome])⟩, rfl⟩
  by_cases soon : (jsm.jobOf entry).expiresAt - 1 < nowSecs ∧
      (jsm.clientAt cli).isWaitingForResv = true
  · obtain ⟨_, after, returns, _⟩ := (ok.lines.ends_unReserve soon.2).returns
    right
    left
    rw [tickClientJobs_of_soon head expired soon, Prog.bind_apply, returns]
    exact ⟨after, _, .answers head expired soon.1 soon.2 returns, rfl⟩
  · left
    refine ⟨tickClientJobs_of_quiet head expired soon, ?_⟩
    intro expiresAt expires
    rw [JSM.firstExpiry, head] at expires
    cases expires
    exact ⟨Int64.not_lt.mp expired, fun waiting => Int64.not_lt.mp fun early =>
      soon ⟨early, waiting⟩⟩

end Rounds

/-! ## Rounds in every run -/

/-- A release takes one entry off the reserved heap of the owner, adds none to a reserved heap,
and leaves the jobs of all entries the same. -/
theorem ends_release_heaps {kinds : Kinds} {jsm : JSM} (jobs : JobsOk kinds jsm) (id : JobID)
    (clientID : ClientID) :
    (release id clientID jsm).Ends
      (fun _ after => ∃ record, jsm.recordOf id = some record ∧ record.OwnedBy clientID ∧
        (after.heapAt (.reserved record.reservedBy)).length + 1 =
          (jsm.heapAt (.reserved record.reservedBy)).length ∧
        (∀ owner, owner ≠ record.reservedBy →
          after.heapAt (.reserved owner) = jsm.heapAt (.reserved owner)) ∧
        (∀ owner, after.heapAt (.reserved owner) ⊆ jsm.heapAt (.reserved owner)) ∧
        ∀ item < jsm.nextEntry, (after.jobOf item).id = (jsm.jobOf item).id ∧
          (after.jobOf item).expiresAt = (jsm.jobOf item).expiresAt)
      (fun _ _ => True) True := by
  refine (ends_transfer jobs (fun found => (jsm.jobAt found.job).OwnedBy clientID)
    (fun found _ => decides_reservedGuard _ clientID found _) removes_removeReservedJob
    enters_enqueueReadyJob
    (fun found key passes home => (Job.kind_of_home home).2.2.2 passes.1)).mono ?_
    (fun _ _ _ => trivial) fun _ => trivial
  rintro _ after ⟨found, key, present, owned, isHome, transferred, _⟩
  have isKey : key = .reserved (jsm.jobAt found.job).reservedBy :=
    (HeapKey.eq_of_home isHome).2.2.2 ((Job.kind_of_home isHome).2.2.2 owned.1)
  subst isKey
  refine ⟨jsm.jobAt found.job, JSM.recordOf_eq present, owned,
    transferred.length_heapAt (by simp), fun owner different => ?_,
    fun owner => transferred.subset_heapAt (by simp), fun item old => ?_⟩
  · exact transferred.heapAt_other (by simpa using different) (by simp)
  · rw [transferred.jobOf old]
    split
    next same => simp [Job.released, JSM.jobOf, same]
    next => exact ⟨rfl, rfl⟩

/-- The heap of the client has more entries than can be released: each release takes one off, and
makes one id that is reserved and has expired a ready one. -/
def JSM.Spare (jsm : JSM) (nowSecs : Int64) (clientID : ClientID) : Prop :=
  ∃ ids : List JobID, ids.length < (jsm.heapAt (.reserved clientID)).length ∧
    ∀ entry ∈ jsm.heapAt (.reserved clientID), (jsm.jobOf entry).expiresAt < nowSecs →
      ∀ record, jsm.recordOf (jsm.jobOf entry).id = some record → record.state = .reserved →
        (jsm.jobOf entry).id ∈ ids

/-- The client waits for a job, and its deadline has not passed, or one of its jobs outlasts the
clock. -/
def JSM.StaysBusy (jsm : JSM) (nowSecs : Int64) (cli : CliPtr) : Prop :=
  (jsm.clientAt cli).isWaitingForResv = true ∧ nowSecs ≤ (jsm.clientAt cli).resvDeadlineAt ∨
    jsm.Spare nowSecs cli.cliID

/-- Whoever was going to stay busy still is, and nobody is newly registered. -/
structure BusyKept (nowSecs : Int64) (before after : JSM) : Prop where
  registered : ∀ cli ∈ after.clients.entries, cli ∈ before.clients.entries
  busy : ∀ cli, before.StaysBusy nowSecs cli → after.StaysBusy nowSecs cli

section Busy

variable {nowSecs : Int64} {cli : CliPtr} {clientID : ClientID} {before middle after jsm : JSM}

theorem JSM.spare_of_unexpired {entry : Nat} (member : entry ∈ jsm.heapAt (.reserved clientID))
    (unexpired : nowSecs ≤ (jsm.jobOf entry).expiresAt) : jsm.Spare nowSecs clientID := by
  let late := (jsm.heapAt (.reserved clientID)).filter fun item =>
    (jsm.jobOf item).expiresAt < nowSecs
  refine ⟨late.map fun item => (jsm.jobOf item).id, ?_, ?_⟩
  · rw [List.length_map]
    exact List.length_filter_lt_length_iff_exists.mpr
      ⟨entry, member, by simpa using Int64.not_lt.mpr unexpired⟩
  · intro item inside expired _ _ _
    exact List.mem_map_of_mem (List.mem_filter.mpr ⟨inside, by simpa using expired⟩)

theorem JSM.Spare.of_frame (spare : before.Spare nowSecs clientID)
    (frame : ClientFrame before after) : after.Spare nowSecs clientID := by
  unfold JSM.Spare
  rw [frame.heapAt, frame.jobOf, frame.recordOf]
  exact spare

namespace BusyKept

theorem refl (nowSecs : Int64) (jsm : JSM) : BusyKept nowSecs jsm jsm :=
  ⟨fun _ member => member, fun _ busy => busy⟩

theorem trans (first : BusyKept nowSecs before middle) (second : BusyKept nowSecs middle after) :
    BusyKept nowSecs before after :=
  ⟨fun cli member => first.registered cli (second.registered cli member),
    fun cli busy => second.busy cli (first.busy cli busy)⟩

theorem of_repositioned (moved : Repositioned cli before after) :
    BusyKept nowSecs before after := by
  refine ⟨moved.registered, fun other busy => ?_⟩
  obtain ⟨_, deadline, waits, _⟩ := ClientResvEntry.fields_of_request (moved.request other)
  rcases busy with ⟨waiting, inTime⟩ | spare
  · exact Or.inl ⟨waits.trans waiting, deadline ▸ inTime⟩
  · exact Or.inr (spare.of_frame moved.frame)

/-- A client stops waiting that was too late, or has a job that outlasts the clock. -/
theorem of_unreserved (unreserved : Unreserved cli before after)
    (spares : before.StaysBusy nowSecs cli → before.Spare nowSecs cli.cliID) :
    BusyKept nowSecs before after := by
  refine ⟨fun other member => unreserved.clients ▸ member, fun other busy => ?_⟩
  by_cases same : other = cli
  · subst other
    exact Or.inr ((spares busy).of_frame unreserved.frame)
  · rcases busy with waits | spare
    · left
      rwa [unreserved.clientAt, if_neg same]
    · exact Or.inr (spare.of_frame unreserved.frame)

/-- A release from the heap on which the job was found. -/
theorem of_released {entry : Nat} {record : Job} (jobs : JobsOk .anyRun before)
    (head : (before.heapAt (.reserved clientID)).head? = some entry)
    (expired : (before.jobOf entry).expiresAt < nowSecs) (isReserved : record.state = .reserved)
    (shorter : (after.heapAt (.reserved clientID)).length + 1 =
      (before.heapAt (.reserved clientID)).length)
    (others : ∀ owner, owner ≠ clientID →
      after.heapAt (.reserved owner) = before.heapAt (.reserved owner))
    (subset : ∀ owner, after.heapAt (.reserved owner) ⊆ before.heapAt (.reserved owner))
    (sameJobs : ∀ item < before.nextEntry, (after.jobOf item).id = (before.jobOf item).id ∧
      (after.jobOf item).expiresAt = (before.jobOf item).expiresAt)
    (moved : Moved .anyRun (before.jobOf entry).id record (record.released 0 false) before after) :
    BusyKept nowSecs before after := by
  obtain ⟨clients, _, clientAt, _⟩ := moved.frame.fields
  refine ⟨fun other member => clients ▸ member, fun other busy => ?_⟩
  rcases busy with waits | ⟨ids, fewer, covers⟩
  · left
    rwa [clientAt]
  · refine Or.inr ⟨ids.erase (before.jobOf entry).id, ?_, ?_⟩
    · by_cases isOwner : other.cliID = clientID
      · rw [isOwner] at fewer covers ⊢
        have covered := covers entry (List.mem_of_head? head) expired record moved.was isReserved
        have positive := List.length_pos_of_mem covered
        rw [List.length_erase_of_mem covered]
        omega
      · rw [others _ isOwner]
        exact Nat.lt_of_le_of_lt List.length_erase_le fewer
    · intro item member isLate next recorded stillReserved
      have inside := subset _ member
      obtain ⟨sameId, sameExpiry⟩ := sameJobs item (jobs.allocated _ item inside)
      rw [sameId] at recorded ⊢
      rw [moved.records] at recorded
      split at recorded
      next =>
        cases recorded
        simp [Job.released] at stillReserved
      next different =>
        exact (List.mem_erase_of_ne different).mpr
          (covers item inside (sameExpiry ▸ isLate) next recorded stillReserved)

end BusyKept

end Busy

/-- The first job on the reserved heap of the client has expired and is not reserved. -/
def JSM.Stuck (jsm : JSM) (nowSecs : Int64) (cli : CliPtr) : Prop :=
  ∃ entry, (jsm.heapAt (.reserved cli.cliID)).head? = some entry ∧
    (jsm.jobOf entry).expiresAt < nowSecs ∧
    ∀ record, jsm.recordOf (jsm.jobOf entry).id = some record → record.state ≠ .reserved

/-- A state in the inner loop, for a client that has been taken off the client heap. -/
structure Handling (nowSecs : Int64) (cli : CliPtr) (popped jsm : JSM) : Prop
    extends AnyRunOk jsm where
  clientHeap : jsm.clientHeap = popped.clientHeap
  tickAt : ∀ other, (jsm.clientAt other).tickAt = (popped.clientAt other).tickAt
  heapIndex : (jsm.clientAt cli).heapIndex = (popped.clientAt cli).heapIndex
  nextClient : jsm.nextClient = popped.nextClient
  deadline : (jsm.clientAt cli).isWaitingForResv = true →
    nowSecs ≤ (jsm.clientAt cli).resvDeadlineAt
  waits : WaitsKept (· = cli) popped jsm
  busy : BusyKept nowSecs popped jsm ∨ jsm.Stuck nowSecs cli
  owned : JobsOk .ownTouches popped → JobsOk .ownTouches jsm

section Handling

variable {nowSecs : Int64} {cli : CliPtr} {popped before after jsm : JSM}

theorem Handling.of_frame (handling : Handling nowSecs cli popped before)
    (jobs : JobsOk .anyRun after) (frame : JobFrame before after)
    (busy : BusyKept nowSecs popped after ∨ after.Stuck nowSecs cli)
    (owned : JobsOk .ownTouches before → JobsOk .ownTouches after) :
    Handling nowSecs cli popped after := by
  obtain ⟨_, clientHeap, clientAt, nextClient, _⟩ := frame.fields
  refine ⟨handling.toAnyRunOk.of_clientView jobs frame.clients, ?_, ?_, ?_, ?_, ?_,
    handling.waits.trans (.of_clientView frame.clients), busy,
    fun isOwned => owned (handling.owned isOwned)⟩
  · rw [clientHeap, handling.clientHeap]
  · rw [clientAt]
    exact handling.tickAt
  · rw [clientAt, handling.heapIndex]
  · rw [nextClient, handling.nextClient]
  · rw [clientAt]
    exact handling.deadline

theorem AnyRunOk.releases {id : JobID} {clientID : ClientID} (ok : AnyRunOk before)
    (returns : release id clientID before = .ok () after) :
    ∃ record, record.OwnedBy clientID ∧
      Moved .anyRun id record (record.released 0 false) before after := by
  have ends : (release id clientID before).Ends _ _ _ :=
    ends_fromReservedToReady ok.jobs clientID 0 false
  rw [returns] at ends
  exact ends

theorem AnyRunOk.unReserves (ok : AnyRunOk before)
    (waiting : (before.clientAt cli).isWaitingForResv = true)
    (returns : unReserve cli before = .ok () after) :
    AnyRunOk after ∧ Unreserved cli before after ∧ after.nextClient = before.nextClient := by
  have ends := ok.lines.ends_unReserve waiting
  rw [returns] at ends
  obtain ⟨lines, unreserved, nextClient⟩ := ends
  exact ⟨⟨ok.jobs.of_clientFrame unreserved.frame, lines⟩, unreserved, nextClient⟩

theorem Unreserved.tickAt (unreserved : Unreserved cli before after) (other : CliPtr) :
    (after.clientAt other).tickAt = (before.clientAt other).tickAt := by
  rw [unreserved.clientAt]
  split
  next same => rw [same]
  next => rfl

theorem Unreserved.idle (unreserved : Unreserved cli before after) :
    (after.clientAt cli).isWaitingForResv = false := by
  rw [unreserved.clientAt, if_pos rfl]

/-- How many rounds the inner loop can still make as long as released jobs leave the heap. -/
def JSM.roundsLeft (jsm : JSM) (cli : CliPtr) : Nat :=
  (jsm.heapAt (.reserved cli.cliID)).length +
    if (jsm.clientAt cli).isWaitingForResv then 1 else 0

theorem JSM.roundsLeft_lt (jsm : JSM) (cli : CliPtr) :
    jsm.roundsLeft cli < (jsm.heapAt (.reserved cli.cliID)).length + 2 := by
  unfold JSM.roundsLeft
  split <;> omega

theorem JobRound.not_stuck (round : JobRound nowSecs cli before after) (ok : AnyRunOk before) :
    ¬ before.Stuck nowSecs cli := by
  rintro ⟨first, isFirst, isLate, notReserved⟩
  cases round with
  | releases head expired returns =>
      rw [head] at isFirst
      cases isFirst
      obtain ⟨record, owned, moved⟩ := ok.releases returns
      exact notReserved record moved.was owned.1
  | answers head unexpired soon waiting returns =>
      rw [head] at isFirst
      cases isFirst
      exact unexpired isLate

theorem JobRound.owned (round : JobRound nowSecs cli before after) (ok : AnyRunOk before)
    (owned : JobsOk .ownTouches before) : JobsOk .ownTouches after := by
  cases round with
  | releases head expired returns =>
      have released := owned.ends_release_first head
      rw [returns] at released
      exact released
  | answers head unexpired soon waiting returns =>
      obtain ⟨_, unreserved, _⟩ := ok.unReserves waiting returns
      exact owned.of_clientFrame unreserved.frame

/-- A round keeps what the loop rests on, does one of two things, and brings the end of the loop
nearer. -/
theorem JobRound.handling (round : JobRound nowSecs cli before after)
    (handling : Handling nowSecs cli popped before) :
    Handling nowSecs cli popped after ∧
      (ReleasesOne before after ∨ ClearsFlag cli before after) ∧ 0 < before.roundsLeft cli ∧
      (after.roundsLeft cli + 1 = before.roundsLeft cli ∨ after.Stuck nowSecs cli) := by
  have busy := handling.busy.resolve_right (round.not_stuck handling.toAnyRunOk)
  have owned := round.owned handling.toAnyRunOk
  cases round with
  | @releases entry head expired returns =>
      have member := List.mem_of_head? head
      have nonempty := List.length_pos_of_mem member
      have released := ends_release_heaps handling.jobs (before.jobOf entry).id cli.cliID
      rw [returns] at released
      obtain ⟨record, recorded, isOwned, shorter, others, subset, sameJobs⟩ := released
      obtain ⟨was, _, moved⟩ := handling.toAnyRunOk.releases returns
      have isRecord := recorded.symm.trans moved.was
      cases isRecord
      obtain ⟨_, _, clientAt, _⟩ := moved.frame.fields
      have outcome : BusyKept nowSecs before after ∧
          after.roundsLeft cli + 1 = before.roundsLeft cli ∨ after.Stuck nowSecs cli := by
        by_cases isOwner : record.reservedBy = cli.cliID
        · left
          rw [isOwner] at shorter others
          refine ⟨.of_released handling.jobs head expired isOwned.1 shorter others subset
            sameJobs moved, ?_⟩
          rw [JSM.roundsLeft, JSM.roundsLeft, clientAt]
          omega
        · -- the entry that was released is on another heap, and the same job comes first again
          right
          obtain ⟨sameId, sameExpiry⟩ := sameJobs entry (handling.jobs.allocated _ entry member)
          refine ⟨entry, ?_, ?_, fun next isNext => ?_⟩
          · rw [others _ fun same => isOwner same.symm]
            exact head
          · rw [sameExpiry]
            exact expired
          · rw [sameId, moved.records, if_pos rfl] at isNext
            rw [← Option.some.inj isNext]
            simp [Job.released]
      refine ⟨handling.of_frame moved.inv moved.frame (outcome.imp_left fun kept =>
        busy.trans kept.1) owned, Or.inl ⟨_, record, recorded, isOwned.1, moved.records⟩, ?_,
        outcome.imp_left And.right⟩
      unfold JSM.roundsLeft
      omega
  | @answers entry head unexpired soon waiting returns =>
      obtain ⟨ok, unreserved, nextClient⟩ := handling.toAnyRunOk.unReserves waiting returns
      have kept : BusyKept nowSecs before after := .of_unreserved unreserved fun _ =>
        JSM.spare_of_unexpired (List.mem_of_head? head) (Int64.not_lt.mp unexpired)
      refine ⟨⟨ok, ?_, fun other => ?_, ?_, ?_, fun stillWaits => ?_,
        handling.waits.trans unreserved.waitsKept, Or.inl (busy.trans kept),
        fun isOwned => owned (handling.owned isOwned)⟩,
        Or.inr ⟨waiting, unreserved.idle, unreserved.frame.recordOf⟩, ?_, Or.inl ?_⟩
      · rw [unreserved.clientHeap, handling.clientHeap]
      · rw [unreserved.tickAt, handling.tickAt]
      · rw [unreserved.heapIndex, handling.heapIndex]
      · rw [nextClient, handling.nextClient]
      · rw [unreserved.idle] at stillWaits
        cases stillWaits
      · simp [JSM.roundsLeft, waiting]
      · rw [JSM.roundsLeft, JSM.roundsLeft, unreserved.idle, waiting, unreserved.frame.heapAt]
        rfl

theorem JSM.Quiet.not_stuck (quiet : jsm.Quiet nowSecs cli) : ¬ jsm.Stuck nowSecs cli := by
  rintro ⟨entry, head, expired, _⟩
  have early := (quiet _ (by rw [JSM.firstExpiry, head]; rfl)).1
  exact absurd expired (Int64.not_lt.mpr early)

theorem halts_tickClientJobs (rounds : Nat) (result : List Reservation)
    (handling : Handling nowSecs cli popped jsm)
    (enough : jsm.roundsLeft cli < rounds ∨ jsm.Stuck nowSecs cli ∧ 0 < rounds) :
    (tickClientJobs nowSecs cli rounds result jsm).Halts
      (fun cause => cause ≠ .loopForever ∧ ¬ JobsOk .ownTouches popped)
      (fun _ after => Handling nowSecs cli popped after ∧ after.Quiet nowSecs cli) := by
  induction rounds generalizing jsm result with
  | zero => omega
  | succ rounds induction =>
      rcases handling.toAnyRunOk.tickClientJobs_round rounds result with
        ⟨stops, quiet⟩ | ⟨after, more, round, goesOn⟩ | ⟨cause, ⟨different, inexact⟩, panics⟩
      · rw [stops]
        exact ⟨handling, quiet⟩
      · rw [goesOn]
        obtain ⟨next, _, positive, nearer⟩ := round.handling handling
        have enough := enough.resolve_right fun stuck =>
          round.not_stuck handling.toAnyRunOk stuck.1
        refine induction more next ?_
        rcases nearer with fewer | stuck
        · left
          omega
        · exact Or.inr ⟨stuck, by omega⟩
      · rw [panics]
        exact ⟨different, fun owned => inexact (handling.owned owned)⟩

end Handling

end Coolbeans
