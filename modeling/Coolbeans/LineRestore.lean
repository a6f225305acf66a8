import Coolbeans.MatchOrder
import Coolbeans.SnapshotRestore

/-!
# Wait queues through a restore

`RestoreClients` lets the clients enter the wait queues of their tubes again, one after the
other, in the order in which the snapshot emits them: that of the client queue.  So a wait queue
comes back as it was exactly if its clients stand in it in the order in which they have been
registered.  A client that has been served and waits again stands behind clients that were
registered after it.
-/

namespace Coolbeans

open FiniteMap PositionHeap StatefulProgram

/-- The entries that a snapshot emits have the first slots of the client heap. -/
def JSM.SlotsFilled (jsm : JSM) : Prop :=
  ∀ cli ∈ jsm.snapshotClients, (jsm.clientAt cli).heapIndex < jsm.snapshotClients.length

/-- The clients of a wait queue are emitted by a snapshot, in the order in which they stand
there. -/
def JSM.LineInOrder (jsm : JSM) (tubeName : TubeName) : Prop :=
  (jsm.waitingAt tubeName).entries.Sublist jsm.snapshotClients

/-! ## The slots of the client heap -/

section Slots

variable {jsm : JSM}

theorem LinesOk.mem_clientHeap (lines : LinesOk jsm) {cli : CliPtr}
    (emitted : cli ∈ jsm.snapshotClients) :
    ∃ i : Nat, (jsm.clientAt cli).heapIndex = i ∧ jsm.clientHeap[i]? = some cli := by
  unfold JSM.snapshotClients at emitted
  rw [List.mem_filter, decide_eq_true_eq] at emitted
  obtain ⟨registered, onHeap⟩ := emitted
  exact Tracked.heapIndex lines.tracked
    ((lines.placed cli (Or.inl registered)).resolve_right onHeap)

theorem LinesOk.fills (lines : LinesOk jsm) (slots : jsm.SlotsFilled) :
    Fills jsm.clientAt jsm.snapshotClients
      (jsm.clientHeap.take jsm.snapshotClients.length) where
  ids := jsm.clients.nodup_ids.sublist (List.filter_sublist.map _)
  perm := by
    have subset : jsm.snapshotClients ⊆ jsm.clientHeap.take jsm.snapshotClients.length := by
      intro cli emitted
      obtain ⟨i, isIndex, occupied⟩ := lines.mem_clientHeap emitted
      have bound := slots cli emitted
      rw [isIndex, Int.ofNat_lt] at bound
      apply List.mem_of_getElem?
      rw [List.getElem?_take, if_pos bound]
      exact occupied
    have nodup : jsm.snapshotClients.Nodup := jsm.clients.nodup_entries.filter _
    exact ((List.subperm_of_subset nodup subset).perm_of_length_le
      (List.length_take_le _ _)).symm
  tracked := by
    intro i cli occupied
    have occupied : (jsm.clientHeap.take jsm.snapshotClients.length)[i]? = some cli := occupied
    rw [List.getElem?_take] at occupied
    split at occupied
    next => exact lines.tracked i cli occupied
    next => cases occupied
  tubes := fun cli _ waiting => lines.nodup cli waiting

end Slots

/-! ## The restored queues -/

section Queues

variable {jsm target : JSM} {tubeName : TubeName}

/-- A list without duplicates is a sublist of another one exactly if it is what remains there of
its members. -/
theorem sublist_iff_filter_eq {α : Type} [DecidableEq α] {items all : List α} {keep : α → Bool}
    (nodup : all.Nodup) (distinct : items.Nodup)
    (members : ∀ item, item ∈ items ↔ keep item = true) :
    items.Sublist all ↔ all.filter keep = items := by
  constructor
  · intro sublist
    have inside : items.Sublist (all.filter keep) := by
      have filtered := sublist.filter keep
      rwa [List.filter_eq_self.mpr fun item => (members item).mp] at filtered
    have perm : items.Perm (all.filter keep) := by
      refine (List.perm_ext_iff_of_nodup distinct (nodup.filter _)).mpr fun item => ?_
      rw [List.mem_filter, members]
      exact ⟨fun kept => ⟨sublist.subset ((members item).mpr kept), kept⟩, And.right⟩
    exact (inside.eq_of_length perm.length_eq).symm
  · intro same
    rw [← same]
    exact List.filter_sublist

theorem LinesOk.lineInOrder_iff (lines : LinesOk jsm) (tubeName : TubeName) :
    jsm.LineInOrder tubeName ↔
      jsm.snapshotClients.filter (fun cli => tubeName ∈ jsm.wanted cli) =
        (jsm.waitingAt tubeName).entries := by
  refine sublist_iff_filter_eq (jsm.clients.nodup_entries.filter _)
    (jsm.waitingAt tubeName).nodup_entries fun cli => ?_
  rw [lines.queued, decide_eq_true_eq]

/-- What `RestoreClients` makes of the entries that a snapshot emits. -/
structure LinesRestored (jsm target restored : JSM) : Prop where
  clientHeap : restored.clientHeap.Perm jsm.snapshotClients
  tracked : Tracked clientStore restored.clientHeapState
  request : ∀ cli, (restored.clientAt cli).request = (target.clientAt cli).request
  queues : ∀ tubeName, (restored.waitingAt tubeName).entries =
    jsm.snapshotClients.filter fun cli => tubeName ∈ jsm.wanted cli
  frame : ClientFrame (newLocalSnapshot target) restored

/-- `RestoreClients` returns if the slots can be filled. -/
theorem LinesOk.restoreClients_returns (lines : LinesOk jsm) (slots : jsm.SlotsFilled)
    (memory : ∀ cli ∈ jsm.snapshotClients, target.clientAt cli = jsm.clientAt cli) :
    ∃ restored, restoreClients jsm.snapshotClients (newLocalSnapshot target) = .ok () restored ∧
      LinesRestored jsm target restored := by
  have fills : Fills (newLocalSnapshot target).clientAt _ _ :=
    (lines.fills slots).of_agree memory
  obtain ⟨middle, restored, returns⟩ :=
    restoreClients_fills fills (noClients_newLocalSnapshot target)
  have rearranged := rearranged_init clientStore (clientResvLess middle.clientAt)
    ⟨jsm.clientHeap.take jsm.snapshotClients.length, middle.clientAt⟩
  have tracked := fills.tracked
  rw [← restored.clientAt] at tracked
  have requests := rearranged.frame (fun memory other => (memory other).request)
    fun memory item position => funext fun other => clientStore_request memory item position other
  refine ⟨_, returns, rearranged.perm.trans fills.perm, rearranged.tracked tracked,
    fun cli => ?_, fun tubeName => ?_,
    restored.frame.trans (.putClientHeap middle _)⟩
  · refine (congrFun requests cli).trans ?_
    rw [restored.clientAt]
    rfl
  · refine (restored.queues tubeName).trans (List.filter_congr fun cli emitted => ?_)
    have sameEntry : (newLocalSnapshot target).clientAt cli = jsm.clientAt cli :=
      memory cli emitted
    have sameWants : (newLocalSnapshot target).wanted cli = jsm.wanted cli := by
      rw [JSM.wanted, sameEntry, JSM.wanted]
    rw [sameWants]

/-- Whatever `RestoreClients` returns comes from filled slots. -/
theorem slotsFilled_of_returns
    (memory : ∀ cli ∈ jsm.snapshotClients, target.clientAt cli = jsm.clientAt cli) {restored : JSM}
    (returns : restoreClients jsm.snapshotClients (newLocalSnapshot target) = .ok () restored) :
    jsm.SlotsFilled := by
  have ends := ends_restoreClients jsm.snapshotClients (newLocalSnapshot target)
  rw [returns] at ends
  intro cli emitted
  rw [← memory cli emitted]
  exact (ends cli emitted).2

/-- The queue of a tube comes back exactly if it is in the order of the client queue. -/
theorem LinesOk.queue_restored_iff (lines : LinesOk jsm)
    (memory : ∀ cli ∈ jsm.snapshotClients, target.clientAt cli = jsm.clientAt cli)
    (tubeName : TubeName) :
    (∃ restored, restoreClients jsm.snapshotClients (newLocalSnapshot target) = .ok () restored ∧
      (restored.waitingAt tubeName).entries = (jsm.waitingAt tubeName).entries) ↔
    jsm.SlotsFilled ∧ jsm.LineInOrder tubeName := by
  constructor
  · rintro ⟨restored, returns, sameQueue⟩
    have slots := slotsFilled_of_returns memory returns
    obtain ⟨again, returnsAgain, isRestored⟩ := lines.restoreClients_returns slots memory
    rw [returns] at returnsAgain
    cases returnsAgain
    refine ⟨slots, (lines.lineInOrder_iff tubeName).mpr ?_⟩
    rw [← isRestored.queues, sameQueue]
  · rintro ⟨slots, inOrder⟩
    obtain ⟨restored, returns, isRestored⟩ := lines.restoreClients_returns slots memory
    refine ⟨restored, returns, ?_⟩
    rw [isRestored.queues, (lines.lineInOrder_iff tubeName).mp inOrder]

end Queues

/-! ## The matches of the replica -/

section Replica

variable {kinds : Kinds} {jsm target middle after : JSM}

theorem JobsOk.readyOrder_restored (inv : JobsOk kinds jsm) (readyExact : kinds .ready)
    (replicaInv : JobsOk kinds after)
    (recordOf : ∀ id, after.recordOf id = (jsm.recordOf id).map Job.restored)
    (tubeName : TubeName) :
    after.readyOrder tubeName = (jsm.readyOrder tubeName).map Job.restored := by
  refine replicaInv.readyOrder_eq readyExact ?_ fun record => ?_
  · rw [List.pairwise_map]
    exact inv.readyOrder_sorted readyExact tubeName
  · rw [List.mem_map, recordOf, Option.map_eq_some_iff]
    constructor
    · rintro ⟨job, member, rfl⟩
      obtain ⟨recorded, home⟩ := (inv.mem_readyOrder readyExact job).mp member
      exact ⟨⟨job, recorded, rfl⟩, home⟩
    · rintro ⟨⟨job, recorded, rfl⟩, home⟩
      exact ⟨job, (inv.mem_readyOrder readyExact job).mpr ⟨recorded, home⟩, rfl⟩

theorem LinesRestored.inLine (lines : LinesOk jsm)
    (memory : ∀ cli ∈ jsm.snapshotClients, target.clientAt cli = jsm.clientAt cli)
    (restored : LinesRestored jsm target middle) {records : List Job}
    (jobs : JobsRestored records middle after) : InLine (finalizeRestore after target) := by
  obtain ⟨_, sameHeap, sameAt, _, sameQueues⟩ := JSM.fields_of_clientView jobs.clients
  have queued : ∀ {tubeName cli}, cli ∈ (after.waitingAt tubeName).entries ↔
      cli ∈ jsm.snapshotClients ∧ tubeName ∈ jsm.wanted cli := by
    intro tubeName cli
    rw [sameQueues, restored.queues, List.mem_filter, decide_eq_true_eq]
  have fields : ∀ cli ∈ jsm.snapshotClients,
      (after.clientAt cli).watchedTubes = (jsm.clientAt cli).watchedTubes ∧
      (after.clientAt cli).isWaitingForResv = (jsm.clientAt cli).isWaitingForResv := by
    intro cli emitted
    have same := restored.request cli
    rw [memory cli emitted, ← sameAt] at same
    obtain ⟨watched, _, waiting, _⟩ := ClientResvEntry.fields_of_request same
    exact ⟨watched, waiting⟩
  have waits : ∀ {tubeName cli}, tubeName ∈ jsm.wanted cli →
      (jsm.clientAt cli).isWaitingForResv = true := by
    intro tubeName cli wanted
    exact (lines.waits ((lines.queued tubeName cli).mpr wanted)).1
  refine ⟨?_, ?_, fun tubeName cli isQueued => ?_, fun tubeName cli isQueued => ?_,
    fun tubeName cli isQueued => ?_⟩
  · have inv : JobsOk .all (finalizeRestore after target) :=
      jobs.inv.congr rfl rfl rfl rfl fun key => by cases key <;> rfl
    exact inv.of_all
  · change Tracked clientStore after.clientHeapState
    rw [JSM.clientHeapState, sameHeap, sameAt]
    exact restored.tracked
  all_goals obtain ⟨emitted, wanted⟩ := queued.mp isQueued
  · left
    change cli ∈ after.clientHeap
    rw [sameHeap, restored.clientHeap.mem_iff]
    exact emitted
  · exact (fields cli emitted).2.trans (waits wanted)
  · have waiting := waits wanted
    change (after.clientAt cli).watchedTubes.Nodup ∧
      ∀ other, cli ∈ (after.waitingAt other).entries ↔ other ∈ (after.clientAt cli).watchedTubes
    rw [(fields cli emitted).1]
    refine ⟨lines.nodup cli waiting, fun other => ?_⟩
    rw [queued, JSM.wanted, if_pos waiting]
    exact and_iff_right emitted

/-- A job for a client. -/
def handOut (resv : Reservation) : ClientID × ReqID × JobID :=
  (resv.clientId, resv.requestId, resv.jobId)

/-- The walks visit the tubes for which clients wait in the same order. -/
def SameVisits (walk otherWalk : TubeWalk) (jsm other : JSM) : Prop :=
  (walk.ready jsm.tubes.keys).filter (fun tubeName => (jsm.waitingAt tubeName).entries ≠ []) =
    (otherWalk.ready other.tubes.keys).filter fun tubeName => (jsm.waitingAt tubeName).entries ≠ []

/-- A replica with the same clients in line and the same jobs makes the same matches. -/
theorem InLine.same_handOuts {replica : JSM} {nowSecs : Int64} {walk otherWalk : TubeWalk}
    (inLine : InLine jsm) (replicaInLine : InLine replica)
    (queues : ∀ tubeName, (replica.waitingAt tubeName).entries = (jsm.waitingAt tubeName).entries)
    (recordOf : ∀ id, replica.recordOf id = (jsm.recordOf id).map Job.restored)
    (reqID : ∀ tubeName, ∀ cli ∈ (jsm.waitingAt tubeName).entries,
      (replica.clientAt cli).reqID = (jsm.clientAt cli).reqID)
    (sameVisits : SameVisits walk otherWalk jsm replica) :
    ∃ resvs served otherResvs otherServed,
      tickReadyJobs nowSecs walk jsm = .ok resvs served ∧
      tickReadyJobs nowSecs otherWalk replica = .ok otherResvs otherServed ∧
      otherResvs.map handOut = resvs.map handOut := by
  have readyExact : Kinds.anyRun .ready := Or.inl rfl
  obtain ⟨pairs, served, isPairs, _, _, returns⟩ :=
    serving_inLine.exists_tickReadyJobs readyExact inLine walk
  obtain ⟨otherPairs, otherServed, areOther, _, _, otherReturns⟩ :=
    serving_inLine.exists_tickReadyJobs readyExact replicaInLine otherWalk
  have sameLines : (fun tubeName => (replica.waitingAt tubeName).entries) =
      fun tubeName => (jsm.waitingAt tubeName).entries := funext queues
  have sameStock : replica.readyOrder = fun tubeName =>
      (jsm.readyOrder tubeName).map Job.restored :=
    funext (inLine.jobs.readyOrder_restored readyExact replicaInLine.jobs recordOf)
  have visited : ∀ tubeNames : List TubeName, WaitingLine.serve jsm.readyOrder
      (tubeNames.filter fun tubeName => (jsm.waitingAt tubeName).entries ≠ [])
        (fun tubeName => (jsm.waitingAt tubeName).entries) =
      WaitingLine.serve jsm.readyOrder tubeNames
        (fun tubeName => (jsm.waitingAt tubeName).entries) := by
    intro tubeNames
    refine WaitingLine.serve_filter fun tubeName _ left => ?_
    simpa using left
  have samePairs : otherPairs = pairs.map (Prod.map id Job.restored) := by
    rw [areOther, isPairs, sameLines, sameStock, WaitingLine.serve_map, ← visited, ← sameVisits,
      visited]
  refine ⟨_, served, _, otherServed, returns, otherReturns, ?_⟩
  rw [samePairs]
  simp only [matchedReservations, List.map_map]
  apply List.map_congr_left
  intro pair member
  rw [isPairs] at member
  obtain ⟨tubeName, _, queued, _⟩ := WaitingLine.of_mem_serve member
  have sameRequest : (replica.clientAt (Prod.map id Job.restored pair).1).reqID = _ :=
    reqID tubeName pair.1 queued
  simp only [Function.comp_apply, handOut, matchedReservation, sameRequest]
  rfl

/-- The wait queue of a tube comes through a snapshot as it was exactly if its clients stand in
it as they do in the client queue.  If this is so for every tube, the replica makes the matches
of the original. -/
theorem waitOrder_restored_iff {admits : JSM → Op → Prop} (reachable : Reachable admits jsm)
    (target : JSM)
    (memory : ∀ cli ∈ jsm.snapshotClients, target.clientAt cli = jsm.clientAt cli) :
    (∀ tubeName,
      (∃ restored, restoreClients jsm.snapshotClients (newLocalSnapshot target) = .ok () restored ∧
        (restored.waitingAt tubeName).entries = (jsm.waitingAt tubeName).entries) ↔
      jsm.SlotsFilled ∧ jsm.LineInOrder tubeName) ∧
    (jsm.SlotsFilled → (∀ tubeName, jsm.LineInOrder tubeName) → ∀ jobWalk : JobWalk,
      ∃ restored replica,
        restoreClients jsm.snapshotClients (newLocalSnapshot target) = .ok () restored ∧
        restoreJobs (jsm.newSnapshotFrom jobWalk).jobs restored = .ok () replica ∧
        ∀ nowSecs walk otherWalk,
          SameVisits walk otherWalk jsm (finalizeRestore replica target) →
          ∃ resvs served otherResvs otherServed,
            tickReadyJobs nowSecs walk jsm = .ok resvs served ∧
            tickReadyJobs nowSecs otherWalk (finalizeRestore replica target) =
              .ok otherResvs otherServed ∧
            otherResvs.map handOut = resvs.map handOut) := by
  have ok := anyRunOk_of_reachable reachable
  refine ⟨ok.lines.queue_restored_iff memory, fun slots inOrder jobWalk => ?_⟩
  obtain ⟨restored, returns, isRestored⟩ := ok.lines.restoreClients_returns slots memory
  obtain ⟨replica, restoresJobs, jobs⟩ := restoreJobs_newSnapshotFrom ok.jobs jobWalk
    ((noJobs_newLocalSnapshot target).of_clientFrame isRestored.frame)
  obtain ⟨_, _, sameAt, _, sameQueues⟩ := JSM.fields_of_clientView jobs.clients
  refine ⟨restored, replica, returns, restoresJobs, fun nowSecs walk otherWalk sameVisits => ?_⟩
  refine ok.inLine.same_handOuts (isRestored.inLine ok.lines memory jobs) (fun tubeName => ?_)
    (fun id => ?_) (fun tubeName cli queued => ?_) sameVisits
  · change (replica.waitingAt tubeName).entries = _
    rw [sameQueues, isRestored.queues, (ok.lines.lineInOrder_iff tubeName).mp (inOrder tubeName)]
  · change replica.recordOf id = _
    rw [jobs.recordOf]
    exact ok.jobs.find_restored jobWalk id
  · change (replica.clientAt cli).reqID = _
    have emitted := (inOrder tubeName).subset queued
    rw [sameAt, (ClientResvEntry.fields_of_request (isRestored.request cli)).2.2.2,
      memory cli emitted]

end Replica

/-- A new state machine in the memory of another one. -/
def JSM.newBeside (jsm : JSM) : JSM :=
  { newJSM with clientAt := jsm.clientAt, nextClient := jsm.nextClient }

theorem JSM.clientAt_newBeside (jsm : JSM) (cli : CliPtr) :
    jsm.newBeside.clientAt cli = jsm.clientAt cli :=
  rfl

/-- Two clients wait, and a job is ready for the first of them. -/
def twoInLine : List Op :=
  [.appendReservation [7] [1] [[1]] 10 100, .appendReservation [8] [2] [[1]] 11 100,
    .put 12 5 0 60 0 none [1]]

theorem waitOrder_restored_iff_twoInLine :
    ((stateAfter twoInLine).waitingAt [1]).entries.map (·.cliID) = [[7], [8]] ∧
    ∃ restored replica resvs served otherResvs otherServed,
      restoreClients (stateAfter twoInLine).snapshotClients
        (newLocalSnapshot (stateAfter twoInLine).newBeside) = .ok () restored ∧
      restoreJobs ((stateAfter twoInLine).newSnapshotFrom .inOrder).jobs restored =
        .ok () replica ∧
      tickReadyJobs 20 .inOrder (stateAfter twoInLine) = .ok resvs served ∧
      tickReadyJobs 20 .inOrder
        (finalizeRestore replica (stateAfter twoInLine).newBeside) = .ok otherResvs otherServed ∧
      otherResvs.map handOut = resvs.map handOut := by
  have reachable : Reachable (fun _ _ => True) (stateAfter twoInLine) :=
    reachable_stateAfter _ fun _ _ _ => trivial
  have keys : (stateAfter twoInLine).tubes.keys = [[1]] := by decide +kernel
  have slots : (stateAfter twoInLine).SlotsFilled := by
    unfold JSM.SlotsFilled
    decide +kernel
  have inOrder : ∀ tubeName, (stateAfter twoInLine).LineInOrder tubeName := by
    intro tubeName
    by_cases isTube : tubeName = [1]
    · rw [isTube, JSM.LineInOrder]
      decide +kernel
    · have nobody : ((stateAfter twoInLine).waitingAt tubeName).entries = [] := by
        by_contra occupied
        obtain ⟨cli, queued⟩ := List.exists_mem_of_ne_nil _ occupied
        have listed := (JSM.mem_keys_iff_hasTube _ _).mpr (JSM.hasTube_of_waiting _ _ queued)
        rw [keys, List.mem_singleton] at listed
        exact isTube listed
      rw [JSM.LineInOrder, nobody]
      exact List.nil_sublist _
  obtain ⟨restored, replica, restoresClients, restoresJobs, sameMatches⟩ :=
    (waitOrder_restored_iff reachable (stateAfter twoInLine).newBeside fun cli _ =>
      JSM.clientAt_newBeside _ cli).2 slots inOrder .inOrder
  have replicaKeys : (restoreClients (stateAfter twoInLine).snapshotClients
      (newLocalSnapshot (stateAfter twoInLine).newBeside)).state?.bind (fun restored =>
        (restoreJobs ((stateAfter twoInLine).newSnapshotFrom .inOrder).jobs restored).state?.map
          (·.tubes.keys)) = some [[1]] := by
    decide +kernel
  rw [restoresClients, Outcome.state?, Option.bind_some, restoresJobs, Outcome.state?,
    Option.map_some, Option.some.injEq] at replicaKeys
  have sameVisits : SameVisits .inOrder .inOrder (stateAfter twoInLine)
      (finalizeRestore replica (stateAfter twoInLine).newBeside) := by
    have sameKeys : (finalizeRestore replica (stateAfter twoInLine).newBeside).tubes.keys =
        (stateAfter twoInLine).tubes.keys := replicaKeys.trans keys.symm
    rw [SameVisits, sameKeys]
  obtain ⟨resvs, served, otherResvs, otherServed, returns, otherReturns, same⟩ :=
    sameMatches 20 .inOrder .inOrder sameVisits
  exact ⟨by decide +kernel, restored, replica, resvs, served, otherResvs, otherServed,
    restoresClients, restoresJobs, returns, otherReturns, same⟩

/-- A client is served and waits again, behind a client that was registered after it. -/
def waitsAgain : List Op :=
  [.appendReservation [7] [1] [[1]] 10 100, .put 10 5 0 60 0 none [1], .tick 11 .inOrder,
    .appendReservation [8] [2] [[1]] 12 100, .appendReservation [7] [3] [[1]] 13 100,
    .put 14 5 0 60 0 none [1]]

/-- The matches of a replica that comes from a snapshot. -/
def replicaHandOuts (nowSecs : Int64) (jsm : JSM) :
    Option (Except Err (List (ClientID × ReqID × JobID))) :=
  (restoreClients jsm.snapshotClients (newLocalSnapshot jsm.newBeside)).state?.bind fun restored =>
    (restoreJobs (jsm.newSnapshotFrom .inOrder).jobs restored).state?.bind fun replica =>
      (tickReadyJobs nowSecs .inOrder (finalizeRestore replica jsm.newBeside)).reply?.map
        (Except.map (List.map handOut))

/-- The restored queue is in another order, and the job goes to the other client. -/
theorem waitOrder_lost :
    Reachable (fun _ op => op.ClockBounded) (stateAfter waitsAgain) ∧
    ((stateAfter waitsAgain).waitingAt [1]).entries.map (·.cliID) = [[8], [7]] ∧
    (restoreClients (stateAfter waitsAgain).snapshotClients
      (newLocalSnapshot (stateAfter waitsAgain).newBeside)).state?.map
        (fun restored => (restored.waitingAt [1]).entries.map (·.cliID)) = some [[7], [8]] ∧
    (tickReadyJobs 20 .inOrder (stateAfter waitsAgain)).reply?.map
      (Except.map (List.map handOut)) = some (.ok [([8], [2], 2)]) ∧
    replicaHandOuts 20 (stateAfter waitsAgain) = some (.ok [([7], [3], 2)]) := by
  have bounded : ∀ op ∈ waitsAgain, op.ClockBounded := by decide
  exact ⟨reachable_stateAfter _ fun op member _ => bounded op member, by decide +kernel,
    by decide +kernel, by decide +kernel, by decide +kernel⟩

end Coolbeans
