import Coolbeans.BoardRuns
import Coolbeans.JobIdentity

/-!
# A restored state shows the same board

A snapshot leaves out who stands in which line, the delay timer and the last id.  When nothing of
that matters, because nobody waits, no job is delayed past the timer of the target, and the newest
job is still there, a restored state shows the board of the original.  Its containers agree and
its timers are early, so from then on the two cannot be told apart.
-/

namespace Coolbeans

open FiniteMap PositionHeap SortedListing StatefulProgram

/-! ## The restored clients -/

/-- Each client entry of a restored state is that of a client on the client heap of the original,
and on the client heap again. -/
def ClientsCarried (origin after : JSM) : Prop :=
  ∀ item ∈ after.clients.entries, item ∈ after.clientHeap ∧
    ∃ cli ∈ origin.clientHeap, cli.cliID = item.cliID ∧
      after.clientAt item = origin.restoredEntry cli

section Clients

variable {kinds : Kinds} {origin before target after : JSM}

theorem ClientsCarried.of_restores (ok : ContainersOk kinds origin) {walk : JobWalk}
    (restores : restoreSnapshotTo (origin.newSnapshotFrom walk) target = .ok () after) :
    ClientsCarried origin after := by
  obtain ⟨_, middle, restoresClients, allocated, restored, frame⟩ :=
    restoreCliRevEntries_relocates ok.clients (length_le_of_restores ok.clients restores) walk
      (noClients_newLocalSnapshot target)
  obtain ⟨last, restoresJobs, jobs⟩ := restoreJobs_newSnapshotFrom ok.jobs walk
    ((noJobs_newLocalSnapshot target).of_clientFrame frame)
  have returns : restoreTo (origin.newSnapshotFrom walk) (newLocalSnapshot target) =
      .ok () last := by
    unfold restoreTo
    rw [Prog.bind_apply, restoresClients, Outcome.ok_andThen, restoresJobs]
  simp only [restoreSnapshotTo, returns] at restores
  cases restores
  obtain ⟨sameClients, sameHeap, clientAt, _⟩ := JSM.fields_of_clientView jobs.clients
  intro item registered
  change item ∈ last.clients.entries at registered
  change item ∈ last.clientHeap ∧ ∃ cli ∈ origin.clientHeap, cli.cliID = item.cliID ∧
    last.clientAt item = origin.restoredEntry cli
  rw [sameClients, restored.entries] at registered
  rw [sameHeap, clientAt, restored.clientHeap, restored.clientAt]
  obtain ⟨cli, emitted, rfl⟩ := List.mem_map.mp registered
  have onHeap := (ok.clients.inv.mem_snapshotClients cli).mp emitted
  exact ⟨List.mem_map_of_mem onHeap, cli, onHeap, rfl, allocated.clientAt cli emitted⟩

end Clients

/-! ## The restored board -/

/-- A snapshot leaves out nothing that the board shows: no request is open, the numbers of the
jobs fit, and the last id is that of a job. -/
structure Board.Carried (board : Board) : Prop where
  answered : ∀ clientID, board.requests clientID = none
  fits : ∀ id job, board.jobs id = some job → job.Fits
  below : ∀ id job, board.jobs id = some job → id ≤ board.lastID
  highest : board.lastID = 0 ∨ ∃ job, board.jobs board.lastID = some job

theorem JSM.record_of_board {jsm : JSM} {id : JobID} {job : Job}
    (shown : jsm.board.jobs id = some job) :
    ∃ record, jsm.recordOf id = some record ∧ record.plain = job :=
  Option.map_eq_some_iff.mp shown

/-- What a snapshot leaves out, in terms of the state. -/
theorem JSM.board_carried {jsm : JSM}
    (fits : ∀ id record, jsm.recordOf id = some record → record.Fits)
    (below : jsm.jobs.keys.all fun id => decide (id ≤ jsm.maxJobID))
    (idle : ∀ cli ∈ jsm.clients.entries, (jsm.clientAt cli).isWaitingForResv = false)
    (highest : jsm.maxJobID ∈ jsm.jobs.keys) : jsm.board.Carried where
  answered := by
    intro clientID
    rw [Option.eq_none_iff_forall_ne_some]
    intro request asks
    obtain ⟨cli, registered, _, isRequest⟩ := (JSM.requestOf_eq_some_iff request).mp asks
    rw [(ClientResvEntry.openRequest_eq_none_iff _).mpr (idle cli registered)] at isRequest
    cases isRequest
  fits := by
    intro id job shown
    obtain ⟨record, recorded, rfl⟩ := Option.map_eq_some_iff.mp shown
    obtain ⟨ttr, bodySize⟩ := fits id record recorded
    exact ⟨ttr, bodySize⟩
  below := by
    intro id job shown
    obtain ⟨record, recorded, rfl⟩ := Option.map_eq_some_iff.mp shown
    have inside := List.all_eq_true.mp below id (JSM.mem_keys_of_recordOf recorded)
    exact of_decide_eq_true inside
  highest := by
    have recorded := KeepsHighest.recorded (Or.inr highest)
    refine recorded.imp_right fun present => ?_
    obtain ⟨record, isRecord⟩ := Option.ne_none_iff_exists'.mp present
    exact ⟨record.plain, by simp [JSM.board, isRecord]⟩

section Restored

variable {buriedKept : Prop} {origin target after : JSM} {walk : JobWalk}
  (ok : MachineOk buriedKept origin) (carried : origin.board.Carried)
  (restores : restoreSnapshotTo (origin.newSnapshotFrom walk) target = .ok () after)

include ok carried restores

theorem JSM.board_jobs_restored : after.board.jobs = origin.board.jobs := by
  have restored := Restored.of_restores ok.containers restores
  funext id
  simp only [JSM.board, restored.recordOf, Option.map_map]
  apply Option.map_congr
  intro record recorded
  have fits : record.Fits := by
    have shown : origin.board.jobs id = some record.plain := by simp [JSM.board, recorded]
    obtain ⟨ttr, bodySize⟩ := carried.fits id record.plain shown
    exact ⟨ttr, bodySize⟩
  rw [Function.comp_apply, Job.restored_of_fits fits]
  rfl

theorem JSM.board_restored : after.board = origin.board := by
  have restored := Restored.of_restores ok.containers restores
  have clients := ClientsCarried.of_restores ok.containers restores
  have idle : ∀ cli ∈ origin.clients.entries, (origin.clientAt cli).isWaitingForResv = false := by
    intro cli registered
    rw [← ClientResvEntry.openRequest_eq_none_iff, ← JSM.requestOf_of_mem registered]
    exact carried.answered cli.cliID
  ext1
  · exact JSM.board_jobs_restored ok carried restores
  · change after.maxJobID = origin.maxJobID
    rw [restored.maxJobID_eq_iff]
    · refine carried.highest.imp_right ?_
      rintro ⟨job, shown⟩
      obtain ⟨record, recorded, _⟩ := Option.map_eq_some_iff.mp shown
      exact JSM.mem_keys_of_recordOf recorded
    · intro id indexed
      obtain ⟨record, recorded⟩ := Option.ne_none_iff_exists'.mp indexed
      exact carried.below id record.plain (by simp [JSM.board, recorded])
  · funext clientID
    rw [carried.answered clientID, Option.eq_none_iff_forall_ne_some]
    intro request asks
    obtain ⟨item, registered, _, isRequest⟩ := (JSM.requestOf_eq_some_iff request).mp asks
    obtain ⟨_, cli, onHeap, _, entry⟩ := clients item registered
    have isIdle := idle cli (ok.containers.clients.inv.onHeap cli onHeap)
    have waiting : (after.clientAt item).isWaitingForResv = false := by
      rw [entry]
      exact isIdle
    rw [(ClientResvEntry.openRequest_eq_none_iff _).mpr waiting] at isRequest
    cases isRequest
  · funext tubeName
    change (after.waitingAt tubeName).entries.map _ = (origin.waitingAt tubeName).entries.map _
    rw [restored.queues tubeName]
    cases queue : (origin.waitingAt tubeName).entries with
    | nil => rfl
    | cons cli rest =>
        have queued : cli ∈ (origin.waitingAt tubeName).entries := by simp [queue]
        obtain ⟨registered, waiting, _⟩ := ok.containers.clients.waiting_of_queued queued
        rw [idle cli registered] at waiting
        cases waiting

/-- The client clocks of a restored state are early. -/
theorem ClocksOk.of_restores : ClocksOk InnerClock after := by
  have reservedExact := (Kinds.onBoard_strong buriedKept).reserved
  have restored := Restored.of_restores ok.containers restores
  have clients := ClientsCarried.of_restores ok.containers restores
  have sameJobs := JSM.board_jobs_restored ok carried restores
  constructor
  · intro id record recorded isReserved
    have shown : origin.board.jobs id = some record.plain := by
      rw [← sameJobs]
      simp [JSM.board, recorded]
    obtain ⟨old, wasRecorded, isPlain⟩ := Option.map_eq_some_iff.mp shown
    have wasReserved : old.state = .reserved := by
      rw [← Job.plain_state, isPlain]
      exact isReserved
    obtain ⟨inner, cli, registered, isOwner⟩ := ok.clocks.owners id old wasRecorded wasReserved
    have home : old.home = some (.reserved cli.cliID) :=
      (Job.home_eq_reserved_iff _ _).mpr ⟨wasReserved, isOwner.symm⟩
    have early := (ok.containers.jobs.tickAtFor_le reservedExact ok.clocks.above wasRecorded home).1
    have onHeap := (ok.clocks.clock cli registered).onHeap (Int64.lt_of_le_of_lt early inner.2)
    have sameExpiry : old.expiresAt = record.expiresAt := by
      rw [← Job.plain_expiresAt, isPlain, Job.plain_expiresAt]
    have sameOwner : old.reservedBy = record.reservedBy := by
      rw [← Job.plain_reservedBy, isPlain, Job.plain_reservedBy]
    refine ⟨sameExpiry ▸ inner, ?_⟩
    have emitted := (ok.containers.clients.inv.mem_snapshotClients cli).mpr onHeap
    have listed : cli.cliID ∈ after.clients.entries.map (·.cliID) := by
      rw [restored.ids]
      exact List.mem_map_of_mem emitted
    obtain ⟨item, isItem, sameId⟩ := List.mem_map.mp listed
    exact ⟨item, isItem, by rw [sameId, isOwner, sameOwner]⟩
  · intro item registered
    obtain ⟨itemOnHeap, cli, onHeap, sameId, entry⟩ := clients item registered
    have wasRegistered := ok.containers.clients.inv.onHeap cli onHeap
    have sameExpiry : after.firstExpiry item.cliID = origin.firstExpiry cli.cliID := by
      have afterJobs : JobsOk (.onBoard buriedKept) after := restored.jobs.of_all
      rw [← afterJobs.board_firstExpiry reservedExact,
        ← ok.containers.jobs.board_firstExpiry reservedExact, sameId]
      unfold Board.first? Board.inOrder Board.Holds
      rw [sameJobs]
    have sameClock : after.tickAtFor item = origin.tickAtFor cli := by
      unfold JSM.tickAtFor
      rw [sameExpiry, entry]
      rfl
    constructor
    · rw [sameClock, entry]
      exact (ok.clocks.clock cli wasRegistered).early
    · exact fun _ => itemOnHeap

/-- A restored state is as sound as the original, if the timer of the target is early. -/
theorem MachineOk.of_restores
    (timer : ∀ id job, origin.board.jobs id = some job → job.state = .delayed →
      target.nextDelayTickAt ≤ job.readyAt) : MachineOk buriedKept after := by
  have restored := Restored.of_restores ok.containers restores
  refine ⟨⟨restored.jobs.of_all, restored.clients⟩, ?_, .of_restores ok carried restores⟩
  intro id record recorded isDelayed
  rw [restored.nextDelayTickAt]
  apply timer id record.plain _ isDelayed
  rw [← JSM.board_jobs_restored ok carried restores]
  simp [JSM.board, recorded]

end Restored

end Coolbeans
