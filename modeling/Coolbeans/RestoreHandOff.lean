import Coolbeans.HandOff
import Coolbeans.InvariantRules
import Coolbeans.SnapshotRestore

/-!
# A restore that fails

`restoreTo` runs `RestoreClients` and then `RestoreJobs` in goroutines of their own, feeds
them over unbuffered channels and waits for their errors.  Both look at a context with a
timeout after each item.  A restore that stops before its last item blocks forever: the
feeder has an item that nobody receives, and the goroutine has an error that nobody receives.
Whatever happens, the state machine is replaced at the end of a restore without errors only.
-/

namespace Coolbeans

open FiniteMap HandOff PositionHeap StatefulProgram

/-! ## The two hand-offs -/

/-- The end of `RestoreClients`. -/
def initializeSlots (slots : List (Option CliPtr)) : JSMProg Unit :=
  match slots.allSome with
  | none => Prog.crash .nilPointer
  | some clis =>
      Prog.modify fun jsm =>
        jsm.putClientHeap (init clientStore (clientResvLess jsm.clientAt) ⟨clis, jsm.clientAt⟩)

/-- `RestoreClients` for a number of entries. -/
def clientsWork (entries : Nat) (expired : Nat → Bool) :
    Worker CliPtr (List (Option CliPtr)) JSM Err Panic where
  start := List.replicate entries none
  handle := restoreClientRound
  finish := initializeSlots
  cancelled := .cancel
  expired

/-- `RestoreJobs` -/
def jobsWork (expired : Nat → Bool) : Worker JobProto Unit JSM Err Panic where
  start := ()
  handle _ proto := restoreJob (newJobFromJobProto proto)
  finish _ := pure ()
  cancelled := .cancel
  expired

/-! ## The restore -/

/-- Where `restoreTo` is. -/
inductive RestorePhase where
  | clients (parties : Parties CliPtr (List (Option CliPtr)) JSM Err)
  | jobs (parties : Parties JobProto Unit JSM Err)
  | returned (result : Option Err)

/-- `restoreTo` and the state machine that it restores into. -/
structure RestoreState where
  phase : RestorePhase
  target : JSM

inductive RestoreStep where
  | inClients (action : Action)
  | clientsBack
  | inJobs (action : Action)
  | jobsBack
  deriving DecidableEq, Repr

/-- A snapshot to be restored, with the moments at which the contexts of its two parts have
expired. -/
structure RestoreCall where
  snap : SnapshotProto
  clientsExpired : Nat → Bool
  jobsExpired : Nat → Bool

namespace RestoreCall

variable (call : RestoreCall) (target : JSM)

/-- The entries that are fed to `RestoreClients`, and the memory that holds them. -/
def entries : List CliPtr × JSM :=
  match allocClients call.snap.reservations (newLocalSnapshot target) with
  | .ok entries memory => (entries, memory)
  | .err _ memory => ([], memory)
  | .panic _ => ([], newLocalSnapshot target)

/-- The goroutine of `restoreCliRevEntries`. -/
def clients : Worker CliPtr (List (Option CliPtr)) JSM Err Panic :=
  clientsWork (call.entries target).1.length call.clientsExpired

/-- The goroutine of `restoreJobs`. -/
def jobs : Worker JobProto Unit JSM Err Panic :=
  jobsWork call.jobsExpired

def start : RestoreState where
  phase := .clients ((call.clients target).parties (call.entries target).1 (call.entries target).2)
  target

/-- A step of `restoreTo`, where it can be made. -/
def step (taken : RestoreStep) (s : RestoreState) : Option RestoreState :=
  match taken, s.phase with
  | .inClients action, .clients parties =>
      ((call.clients target).step action parties).map fun parties =>
        { s with phase := .clients parties }
  | .clientsBack, .clients parties =>
      match parties.feeder with
      | .returned none =>
          some { s with phase := .jobs (call.jobs.parties call.snap.jobs parties.memory) }
      | .returned (some error) => some { s with phase := .returned (some error) }
      | _ => none
  | .inJobs action, .jobs parties =>
      (call.jobs.step action parties).map fun parties => { s with phase := .jobs parties }
  | .jobsBack, .jobs parties =>
      match parties.feeder with
      | .returned none =>
          some ⟨.returned none, finalizeRestore parties.memory s.target⟩
      | .returned (some error) => some { s with phase := .returned (some error) }
      | _ => none
  | _, _ => none

/-- The states that a restore reaches. -/
inductive Reaches : RestoreState → Prop
  | start : Reaches (call.start target)
  | step {before after : RestoreState} (taken : RestoreStep) (reached : Reaches before)
      (steps : call.step target taken before = some after) : Reaches after

end RestoreCall

/-- The feeder is blocked sending an item and the goroutine sending its error. -/
def RestoreState.Blocked (s : RestoreState) : Prop :=
  match s.phase with
  | .clients parties => parties.Blocked
  | .jobs parties => parties.Blocked
  | .returned _ => False

/-- The goroutine has panicked, which ends the process. -/
def RestoreState.Crashed (s : RestoreState) : Prop :=
  match s.phase with
  | .clients parties => parties.worker = .crashed
  | .jobs parties => parties.worker = .crashed
  | .returned _ => False

/-! ## What a restore can do -/

theorem keeps_initializeSlots {inv : JSM → Prop} (closed : ClientClosed inv)
    (slots : List (Option CliPtr)) : Prog.Keeps inv (initializeSlots slots) := by
  unfold initializeSlots
  split
  · exact Prog.keeps_crash _
  · exact Prog.keeps_modify fun jsm => closed.putClientHeap jsm _

namespace RestoreCall

variable {call : RestoreCall} {target : JSM} {s : RestoreState}

/-- The clients have been restored, and the memory is as `RestoreJobs` finds it. -/
def ClientsDone (call : RestoreCall) (target memory : JSM) : Prop :=
  ∃ slots last, (call.clients target).drive 0 (call.clients target).start
      (call.entries target).1 (call.entries target).2 = .handled slots last ∧
    initializeSlots slots last = .ok () memory

/-- What holds of a state that a restore reaches. -/
def Holds (call : RestoreCall) (target : JSM) (s : RestoreState) : Prop :=
  match s.phase with
  | .clients parties =>
      s.target = target ∧
        (call.clients target).Reaches (call.entries target).1 (call.entries target).2 parties
  | .jobs parties =>
      s.target = target ∧
        ∃ memory, call.ClientsDone target memory ∧ call.jobs.Reaches call.snap.jobs memory parties
  | .returned (some _) => s.target = target
  | .returned none => True

theorem Reaches.holds (reached : call.Reaches target s) : call.Holds target s := by
  induction reached with
  | start => exact ⟨rfl, .start⟩
  | @step before after taken _ stepped holds =>
      unfold RestoreCall.step at stepped
      split at stepped
      next action parties phase =>
        obtain ⟨moved, moves, rfl⟩ := Option.map_eq_some_iff.mp stepped
        simp only [Holds, phase] at holds ⊢
        exact ⟨holds.1, holds.2.step action moves⟩
      next parties phase =>
        simp only [Holds, phase] at holds
        split at stepped
        next back =>
          cases stepped
          obtain ⟨slots, last, driven, finishes⟩ := (holds.2.reports back).handled
          exact ⟨holds.1, parties.memory, ⟨slots, last, driven, finishes⟩, .start⟩
        next error back =>
          cases stepped
          exact holds.1
        next => cases stepped
      next action parties phase =>
        obtain ⟨moved, moves, rfl⟩ := Option.map_eq_some_iff.mp stepped
        simp only [Holds, phase] at holds ⊢
        obtain ⟨same, memory, done, reached⟩ := holds
        exact ⟨same, memory, done, reached.step action moves⟩
      next parties phase =>
        simp only [Holds, phase] at holds
        split at stepped
        next => cases stepped; trivial
        next error back =>
          cases stepped
          exact holds.1
        next => cases stepped
      next => cases stepped

theorem reaches_clients {parties : Parties CliPtr (List (Option CliPtr)) JSM Err}
    (reached : (call.clients target).Reaches (call.entries target).1 (call.entries target).2
      parties) : call.Reaches target ⟨.clients parties, target⟩ := by
  induction reached with
  | start => exact .start
  | step action _ stepped reaches =>
      apply reaches.step (.inClients action)
      simp only [RestoreCall.step, stepped, Option.map_some]

theorem reaches_jobs {memory : JSM} (done : call.ClientsDone target memory)
    {parties : Parties JobProto Unit JSM Err}
    (reached : call.jobs.Reaches call.snap.jobs memory parties) :
    call.Reaches target ⟨.jobs parties, target⟩ := by
  induction reached with
  | start =>
      obtain ⟨slots, last, driven, finishes⟩ := done
      obtain ⟨parties, reached, back, rfl⟩ := Worker.exists_returned driven finishes
      apply (reaches_clients reached).step .clientsBack
      simp only [RestoreCall.step, back]
  | step action _ stepped reaches =>
      apply reaches.step (.inJobs action)
      simp only [RestoreCall.step, stepped, Option.map_some]

/-- Unless it is blocked, a restore goes on until it has returned or crashed. -/
theorem Reaches.goes_on (reached : call.Reaches target s) (free : ¬ s.Blocked)
    (running : ¬ s.Crashed) (waits : ∀ result, s.phase ≠ .returned result) :
    ∃ taken, (call.step target taken s).isSome = true := by
  have holds := reached.holds
  cases phase : s.phase with
  | clients parties =>
      simp only [Holds, phase] at holds
      simp only [RestoreState.Blocked, RestoreState.Crashed, phase] at free running
      by_cases back : ∃ result, parties.feeder = .returned result
      · obtain ⟨result, back⟩ := back
        refine ⟨.clientsBack, ?_⟩
        cases result <;> simp [RestoreCall.step, phase, back]
      · obtain ⟨action, moves⟩ := holds.2.goes_on free running fun result isBack =>
          back ⟨result, isBack⟩
        refine ⟨.inClients action, ?_⟩
        simpa [RestoreCall.step, phase] using moves
  | jobs parties =>
      simp only [Holds, phase] at holds
      simp only [RestoreState.Blocked, RestoreState.Crashed, phase] at free running
      obtain ⟨_, memory, _, inJobs⟩ := holds
      by_cases back : ∃ result, parties.feeder = .returned result
      · obtain ⟨result, back⟩ := back
        refine ⟨.jobsBack, ?_⟩
        cases result <;> simp [RestoreCall.step, phase, back]
      · obtain ⟨action, moves⟩ := inJobs.goes_on free running fun result isBack =>
          back ⟨result, isBack⟩
        refine ⟨.inJobs action, ?_⟩
        simpa [RestoreCall.step, phase] using moves
  | returned result => exact absurd phase (waits result)

/-! ## Where a restore stops -/

/-- The parts of a restore stop at their last item, if they stop at all: no client entry but
the last is found too late once the entries before it are restored, and then no job but the
last is found too late or has the id of a job before it. -/
structure StopsLate (call : RestoreCall) (target : JSM) : Prop where
  clients : ∀ index slots memory, index + 1 < (call.entries target).1.length →
    (call.clients target).drive 0 (call.clients target).start
      ((call.entries target).1.take index) (call.entries target).2 = .handled slots memory →
    call.clientsExpired index = false
  jobs : ∀ memory, call.ClientsDone target memory →
    (∀ index, index + 1 < call.snap.jobs.length → call.jobsExpired index = false) ∧
      ((call.snap.jobs.dropLast.map newJobFromJobProto).map (·.id)).Nodup

theorem noJobs_entries (call : RestoreCall) (target : JSM) : NoJobs (call.entries target).2 := by
  have kept := keeps_allocClients clientClosed_noJobs call.snap.reservations
    (newLocalSnapshot target) (noJobs_newLocalSnapshot target)
  unfold entries
  split
  next allocates =>
    rw [allocates] at kept
    exact kept
  next allocates =>
    rw [allocates] at kept
    exact kept
  next => exact noJobs_newLocalSnapshot target

theorem ClientsDone.noJobs {memory : JSM} (done : call.ClientsDone target memory) :
    NoJobs memory := by
  obtain ⟨slots, last, driven, finishes⟩ := done
  have loop := Prog.keeps_foldlM (call.entries target).1 (call.clients target).start
    (keeps_restoreClientRound clientClosed_noJobs) (call.entries target).2
    (noJobs_entries call target)
  rw [show (call.entries target).1.foldlM restoreClientRound _ _ = _ from
    (Worker.drive_eq_handled_iff.mp driven).2] at loop
  have ends := keeps_initializeSlots clientClosed_noJobs slots last loop
  rw [finishes] at ends
  exact ends

/-! ### Clients -/

theorem neverFails_restoreClientRound (slots : List (Option CliPtr)) (cli : CliPtr) :
    Prog.NeverFails (restoreClientRound slots cli) := by
  refine (Prog.neverFails_attempt _).bind fun restored => ?_
  split
  · exact Prog.neverFails_pure _
  · exact Prog.neverFails_crash _

theorem clients_blocked_iff :
    (∃ parties, (call.clients target).Reaches (call.entries target).1 (call.entries target).2
        parties ∧ parties.Blocked) ↔
      ∃ index slots memory, index + 1 < (call.entries target).1.length ∧
        (call.clients target).drive 0 (call.clients target).start
          ((call.entries target).1.take index) (call.entries target).2 = .handled slots memory ∧
        call.clientsExpired index = true := by
  rw [Worker.blocked_iff]
  constructor
  · rintro ⟨error, last, item, rest, driven⟩
    obtain ⟨done, cli, slots, memory, split, handled, why⟩ := Worker.drive_eq_stopped_iff.mp driven
    rcases why with ⟨expired, _, _⟩ | ⟨_, refuses⟩
    · rw [Nat.zero_add] at expired
      refine ⟨done.length, slots, memory, ?_, ?_, expired⟩
      · rw [split]
        simp
      · rw [split, List.take_left]
        exact handled
    · have ends := neverFails_restoreClientRound slots cli memory
      rw [show restoreClientRound slots cli memory = _ from refuses] at ends
      exact ends.elim
  · rintro ⟨index, slots, memory, bound, handled, expired⟩
    have length : ((call.entries target).1.take index).length = index := by
      rw [List.length_take]
      omega
    have split : (call.entries target).1 = (call.entries target).1.take index ++
        (call.entries target).1[index] :: (call.entries target).1[index + 1] ::
          (call.entries target).1.drop (index + 2) := by
      rw [List.getElem_cons_drop, List.getElem_cons_drop, List.take_append_drop]
    refine ⟨_, _, _, _, Worker.drive_eq_stopped_iff.mpr
      ⟨_, _, slots, memory, split, handled, Or.inl ⟨?_, rfl, rfl⟩⟩⟩
    rw [length, Nat.zero_add]
    exact expired

/-! ### Jobs -/

theorem jobs_stops_iff {memory : JSM} (noJobs : NoJobs memory) (protos : List JobProto) :
    (∃ error last rest, call.jobs.drive 0 () protos memory = .stopped error last rest) ↔
      ¬ ((∀ index, index < protos.length → call.jobsExpired index = false) ∧
        ((protos.map newJobFromJobProto).map (·.id)).Nodup) := by
  have ends := ends_forEach_restoreJob noJobs (protos.map newJobFromJobProto)
  rw [← restoreJobs_eq] at ends
  have sameLoop : protos.foldlM call.jobs.handle () memory = restoreJobs protos memory := rfl
  cases driven : call.jobs.drive 0 () protos memory with
  | handled made last =>
      obtain ⟨inTime, restores⟩ := Worker.drive_eq_handled_iff.mp driven
      rw [← sameLoop, restores] at ends
      simp only [Nat.zero_add] at inTime
      constructor
      · rintro ⟨error, memory, rest, stopped⟩
        cases stopped
      · intro not
        exact absurd ⟨inTime, ends.1⟩ not
  | stopped error last rest =>
      constructor
      · rintro _ ⟨inTime, distinct⟩
        obtain ⟨after, restores, _⟩ := forEach_restoreJob noJobs distinct
        rw [← restoreJobs_eq, ← sameLoop] at restores
        have handled : call.jobs.drive 0 () protos memory = .handled () after :=
          Worker.drive_eq_handled_iff.mpr
            ⟨fun index bound => by rw [Nat.zero_add]; exact inTime index bound, restores⟩
        rw [handled] at driven
        cases driven
      · intro _
        exact ⟨error, last, rest, rfl⟩
  | crashed =>
      obtain ⟨cause, panics⟩ := Worker.panics_of_drive driven
      rw [← sameLoop, panics] at ends
      exact ends.elim

theorem jobs_blocked_iff {memory : JSM} (noJobs : NoJobs memory) :
    (∃ parties, call.jobs.Reaches call.snap.jobs memory parties ∧ parties.Blocked) ↔
      ¬ ((∀ index, index + 1 < call.snap.jobs.length → call.jobsExpired index = false) ∧
        ((call.snap.jobs.dropLast.map newJobFromJobProto).map (·.id)).Nodup) := by
  rw [Worker.blocked_iff]
  change (∃ error last item rest, call.jobs.drive 0 () call.snap.jobs memory = _) ↔ _
  rcases List.eq_nil_or_concat call.snap.jobs with isNil | ⟨protos, last, split⟩
  · rw [isNil]
    simp [Worker.drive]
  · rw [split, List.concat_eq_append, Worker.stops_early_iff, jobs_stops_iff noJobs,
      List.dropLast_concat, List.length_append, List.length_singleton]
    simp only [Nat.add_lt_add_iff_right]

/-! ## Reporting instead of hanging -/

/-- A restore never blocks exactly if its parts stop late.  Until it blocks, crashes or
returns it goes on, and when it returns an error the state machine is as it was. -/
theorem restore_reports_iff (call : RestoreCall) (target : JSM) :
    ((∀ s, call.Reaches target s → ¬ s.Blocked) ↔ call.StopsLate target) ∧
      (∀ s, call.Reaches target s → ¬ s.Blocked → ¬ s.Crashed →
        (∀ result, s.phase ≠ .returned result) →
          ∃ taken, (call.step target taken s).isSome = true) ∧
      ∀ s error, call.Reaches target s → s.phase = .returned (some error) →
        s.target = target := by
  refine ⟨⟨?_, ?_⟩, fun s reached => reached.goes_on, ?_⟩
  · intro free
    constructor
    · intro index slots memory bound handled
      by_contra expired
      obtain ⟨parties, reached, blocked⟩ := clients_blocked_iff.mpr
        ⟨index, slots, memory, bound, handled, by simpa using expired⟩
      exact free _ (reaches_clients reached) blocked
    · intro memory done
      by_contra early
      obtain ⟨parties, reached, blocked⟩ := (jobs_blocked_iff done.noJobs).mpr early
      exact free _ (reaches_jobs done reached) blocked
  · intro late s reached blocked
    have holds := reached.holds
    cases phase : s.phase with
    | clients parties =>
        simp only [Holds, phase] at holds
        simp only [RestoreState.Blocked, phase] at blocked
        obtain ⟨index, slots, memory, bound, handled, expired⟩ :=
          clients_blocked_iff.mp ⟨parties, holds.2, blocked⟩
        rw [late.clients index slots memory bound handled] at expired
        cases expired
    | jobs parties =>
        simp only [Holds, phase] at holds
        simp only [RestoreState.Blocked, phase] at blocked
        obtain ⟨_, memory, done, inJobs⟩ := holds
        exact (jobs_blocked_iff done.noJobs).mp ⟨parties, inJobs, blocked⟩ (late.jobs memory done)
    | returned result => simp [RestoreState.Blocked, phase] at blocked
  · intro s error reached phase
    have holds := reached.holds
    simpa only [Holds, phase] using holds

/-- A snapshot of some jobs that are ready, restored in time. -/
def ofIDs (ids : List Int64) : RestoreCall where
  snap :=
    { jobs := ids.map fun id =>
        { id, priority := 0, delay := 0, ttr := 1, tubeName := [], createdAt := 0, readyAt := 0,
          expiresAt := 0, state := .ready, reservedBy := [], bodySize := 0, body := none,
          buriedAt := 0, reserveCount := 0, timeoutCount := 0, releaseCount := 0, buryCount := 0,
          kickCount := 0 }
      reservations := [] }
  clientsExpired _ := false
  jobsExpired _ := false

theorem restore_reports_iff_twoJobs :
    ∀ s, (ofIDs [1, 2]).Reaches newJSM s → ¬ s.Blocked := by
  apply (restore_reports_iff (ofIDs [1, 2]) newJSM).1.mpr
  exact ⟨fun _ _ _ _ _ => rfl, fun _ _ => ⟨fun _ _ => rfl, by decide⟩⟩

/-- Two jobs with one id and a third one block the restore. -/
theorem sameID_blocks : ∃ s, (ofIDs [1, 1, 2]).Reaches newJSM s ∧ s.Blocked := by
  have done : (ofIDs [1, 1, 2]).ClientsDone newJSM (newLocalSnapshot newJSM) :=
    ⟨[], _, rfl, rfl⟩
  have twice : ¬ (((ofIDs [1, 1, 2]).snap.jobs.dropLast.map newJobFromJobProto).map
      (·.id)).Nodup := by
    decide
  obtain ⟨parties, reached, blocked⟩ :=
    (jobs_blocked_iff done.noJobs).mpr fun late => twice late.2
  exact ⟨_, reaches_jobs done reached, blocked⟩

end RestoreCall

end Coolbeans
