import Coolbeans.ClientRestore
import Coolbeans.JobRestore

/-!
# Restoring a snapshot

A snapshot of a state, restored into another state machine.  The restore makes
new client entries and new jobs, so pointers change; ids, slots and records do
not.  The positions of the client heap pass through 32 bits, which bounds the
number of clients that a snapshot can carry.
-/

namespace Coolbeans

open FiniteMap PositionHeap StatefulProgram

/-! ## New client entries -/

/-- Where a restore allocates an entry. -/
def relocate (base : Nat) (entries : List CliPtr) (cli : CliPtr) : CliPtr :=
  ⟨cli.cliID, base + entries.idxOf cli⟩

/-- New entries with the given records have been allocated. -/
structure ClientsAllocated (entries : List CliPtr) (record : CliPtr → ClientResvEntry)
    (before after : JSM) : Prop where
  clientAt : ∀ cli ∈ entries,
    after.clientAt (relocate before.nextClient entries cli) = record cli
  old : ∀ other, other.addr < before.nextClient → after.clientAt other = before.clientAt other
  nextClient : after.nextClient = before.nextClient + entries.length
  rest : after = { before with clientAt := after.clientAt, nextClient := after.nextClient }

theorem allocClients_returns (proto : CliPtr → ClientResvEntryProto)
    (ids : ∀ cli, (proto cli).clientId = cli.cliID) {entries : List CliPtr}
    (nodup : entries.Nodup) (before : JSM) :
    ∃ after, allocClients (entries.map proto) before =
        .ok (entries.map (relocate before.nextClient entries)) after ∧
      ClientsAllocated entries (fun cli => clientFromProto (proto cli)) before after := by
  induction entries generalizing before with
  | nil => exact ⟨before, rfl, by simp, fun _ _ => rfl, rfl, rfl⟩
  | cons cli entries induction =>
      obtain ⟨fresh, nodup⟩ := List.nodup_cons.mp nodup
      let middle : JSM :=
        { before with
          clientAt := fun read =>
            if read = ⟨cli.cliID, before.nextClient⟩ then clientFromProto (proto cli)
            else before.clientAt read
          nextClient := before.nextClient + 1 }
      have allocates : allocClient (proto cli).clientId (clientFromProto (proto cli)) before =
          .ok ⟨cli.cliID, before.nextClient⟩ middle := by
        rw [ids]
        rfl
      obtain ⟨after, returns, allocated⟩ := induction nodup middle
      have head : relocate before.nextClient (cli :: entries) cli =
          ⟨cli.cliID, before.nextClient⟩ := by
        simp [relocate]
      have tail : ∀ other ∈ entries, relocate before.nextClient (cli :: entries) other =
          relocate middle.nextClient entries other := by
        intro other member
        have different : cli ≠ other := fun same => fresh (same ▸ member)
        simp only [relocate, middle, List.idxOf_cons_ne entries different]
        congr 1
        omega
      refine ⟨after, ?_, ?_, ?_, ?_, ?_⟩
      · rw [List.map_cons, allocClients, Prog.bind_apply, allocates, Outcome.ok_andThen,
          Prog.bind_apply, returns, Outcome.ok_andThen, List.map_cons, head,
          List.map_congr_left tail]
        rfl
      · intro other member
        rcases List.mem_cons.mp member with rfl | later
        · rw [head, allocated.old _ (Nat.lt_succ_self before.nextClient)]
          simp [middle]
        · rw [tail other later]
          exact allocated.clientAt other later
      · intro other earlier
        rw [allocated.old other (Nat.lt_succ_of_lt earlier)]
        have different : other ≠ ⟨cli.cliID, before.nextClient⟩ := by
          intro same
          rw [same] at earlier
          exact Nat.lt_irrefl _ earlier
        simp [middle, different]
      · rw [allocated.nextClient, List.length_cons]
        simp only [middle]
        omega
      · exact allocated.rest

/-- What a client entry becomes in a snapshot and back. -/
def JSM.restoredEntry (jsm : JSM) (cli : CliPtr) : ClientResvEntry :=
  clientFromProto (clientRsvEntryProto cli (jsm.clientAt cli))

section Clients

variable {origin before middle : JSM}

theorem ClientsAllocated.sortKey
    (allocated : ClientsAllocated origin.snapshotClients origin.restoredEntry before middle)
    {cli : CliPtr} (member : cli ∈ origin.snapshotClients) :
    clientSortKey middle.clientAt (relocate before.nextClient origin.snapshotClients cli) =
      clientSortKey origin.clientAt cli := by
  unfold clientSortKey
  rw [allocated.clientAt cli member]
  rfl

/-- The new entries remember the slots of the client heap, if their numbers fit
into 32 bits. -/
theorem ClientsOk.restorable_relocated (ok : ClientsOk origin)
    (small : origin.clientHeap.length ≤ 2 ^ 31)
    (allocated : ClientsAllocated origin.snapshotClients origin.restoredEntry before middle) :
    Restorable middle.clientAt
      (origin.snapshotClients.map (relocate before.nextClient origin.snapshotClients))
      (origin.clientHeap.map (relocate before.nextClient origin.snapshotClients)) := by
  have emitted : ∀ {i : Nat} {cli : CliPtr}, origin.clientHeap[i]? = some cli →
      cli ∈ origin.snapshotClients := fun occupied =>
    (ok.inv.mem_snapshotClients _).mpr (List.mem_of_getElem? occupied)
  have restorable := ok.restorable
  refine ⟨⟨?_, ?_, ?_, ?_⟩, ?_⟩
  · rw [List.map_map]
    exact restorable.ids
  · exact restorable.perm.map _
  · intro i item occupied
    rw [List.getElem?_map] at occupied
    obtain ⟨cli, atSlot, rfl⟩ := Option.map_eq_some_iff.mp occupied
    obtain ⟨bound, _⟩ := List.getElem?_eq_some_iff.mp atSlot
    have position : (origin.clientAt cli).heapIndex = i := ok.inv.tracked i cli atSlot
    change (middle.clientAt _).heapIndex = i
    rw [allocated.clientAt cli (emitted atSlot)]
    change (Int32.ofInt (origin.clientAt cli).heapIndex).toInt = i
    rw [position, Int32.toInt_ofInt_of_le (by omega) (by omega)]
  · intro item member _
    obtain ⟨cli, isEmitted, rfl⟩ := List.mem_map.mp member
    rw [allocated.clientAt cli isEmitted]
    exact List.nodup_nil
  · intro c positive bound a b atParent atChild
    rw [List.getElem?_map] at atParent atChild
    rw [List.length_map] at bound
    obtain ⟨parent, parentSlot, rfl⟩ := Option.map_eq_some_iff.mp atParent
    obtain ⟨child, childSlot, rfl⟩ := Option.map_eq_some_iff.mp atChild
    rw [allocated.sortKey (emitted parentSlot), allocated.sortKey (emitted childSlot)]
    exact restorable.ordered c positive bound parent child parentSlot childSlot

theorem ClientsRestored.clientInv {entries heap : List CliPtr} {after : JSM}
    (restored : ClientsRestored entries heap before after)
    (restorable : Restorable before.clientAt entries heap)
    (allocated : ∀ cli ∈ entries, cli.addr < before.nextClient) :
    ClientInv after.wanted after where
  allocated := by
    rw [restored.entries, restored.nextClient]
    exact allocated
  onHeap := by
    rw [restored.entries, restored.clientHeap]
    exact fun cli member => restorable.perm.mem_iff.mp member
  tracked := by
    rw [JSM.clientHeapState, restored.clientHeap, restored.clientAt]
    exact restorable.tracked
  offHeap := by
    rw [restored.entries, restored.clientHeap]
    exact fun cli member outside => absurd (restorable.perm.mem_iff.mpr member) outside
  ordered := by
    rw [restored.clientHeap, restored.clientAt]
    exact restorable.ordered
  queued := by
    intro tubeName cli
    have sameWants : after.wanted cli = before.wanted cli := by
      simp only [JSM.wanted, restored.clientAt]
    rw [restored.mem_queue, restored.entries, sameWants]

theorem restoreCliRevEntries_relocates (ok : ClientsOk origin)
    (small : origin.clientHeap.length ≤ 2 ^ 31) (walk : JobWalk) (noClients : NoClients before) :
    ∃ middle after, restoreCliRevEntries (origin.newSnapshotFrom walk).reservations before =
        .ok () after ∧
      ClientsAllocated origin.snapshotClients origin.restoredEntry before middle ∧
      ClientsRestored (origin.snapshotClients.map (relocate before.nextClient
        origin.snapshotClients)) (origin.clientHeap.map (relocate before.nextClient
        origin.snapshotClients)) middle after ∧ ClientFrame before after := by
  have nodup : origin.snapshotClients.Nodup := ok.restorable.ids.of_map _
  obtain ⟨middle, allocates, allocated⟩ := allocClients_returns
    (fun cli => clientRsvEntryProto cli (origin.clientAt cli)) (fun _ => rfl) nodup before
  have noClientsMiddle : NoClients middle := by
    rw [allocated.rest]
    exact ⟨noClients.entries, noClients.clientHeap, noClients.queues⟩
  have frame : ClientFrame before middle := by
    rw [allocated.rest]
    exact ⟨rfl, rfl, rfl, fun _ present => present⟩
  obtain ⟨after, returns, restored⟩ := restoreClients_returns
    (ok.restorable_relocated small allocated) noClientsMiddle
  refine ⟨middle, after, ?_, allocated, restored, frame.trans restored.frame⟩
  unfold restoreCliRevEntries
  rw [Prog.bind_apply]
  change (allocClients (origin.snapshotClients.map _) before).andThen _ = _
  rw [allocates, Outcome.ok_andThen]
  exact returns

/-- The entries of a snapshot can be restored; nobody waits for a tube then. -/
theorem restoreCliRevEntries_returns (ok : ClientsOk origin)
    (small : origin.clientHeap.length ≤ 2 ^ 31) (walk : JobWalk) (noClients : NoClients before) :
    ∃ after, restoreCliRevEntries (origin.newSnapshotFrom walk).reservations before =
        .ok () after ∧ ClientsOk after ∧
      after.clients.entries.map (·.cliID) = origin.snapshotClients.map (·.cliID) ∧
      (∀ tubeName, (after.waitingAt tubeName).entries = []) ∧ ClientFrame before after := by
  obtain ⟨middle, after, returns, allocated, restored, frame⟩ :=
    restoreCliRevEntries_relocates ok small walk noClients
  have restorable := ok.restorable_relocated small allocated
  have fresh : ∀ item ∈ origin.snapshotClients.map
      (relocate before.nextClient origin.snapshotClients), item.addr < middle.nextClient := by
    intro item member
    obtain ⟨cli, emitted, rfl⟩ := List.mem_map.mp member
    rw [allocated.nextClient, relocate]
    exact Nat.add_lt_add_left (List.idxOf_lt_length_of_mem emitted) _
  have records : ∀ item ∈ after.clients.entries, ∃ cli ∈ origin.snapshotClients,
      after.clientAt item = origin.restoredEntry cli := by
    intro item member
    rw [restored.entries] at member
    obtain ⟨cli, emitted, rfl⟩ := List.mem_map.mp member
    rw [restored.clientAt]
    exact ⟨cli, emitted, allocated.clientAt cli emitted⟩
  refine ⟨after, returns, ⟨restored.clientInv restorable fresh, ?_, ?_⟩, ?_, ?_, frame⟩
  · intro item member waiting
    obtain ⟨cli, emitted, same⟩ := records item member
    rw [same] at waiting ⊢
    exact ok.deadline cli (List.mem_of_mem_filter emitted) waiting
  · intro item member _
    obtain ⟨cli, _, same⟩ := records item member
    rw [same]
    exact List.nodup_nil
  · rw [restored.entries, List.map_map]
    rfl
  · intro tubeName
    rw [List.eq_nil_iff_forall_not_mem]
    intro item queued
    obtain ⟨member, wanted⟩ := (restored.mem_queue tubeName item).mp queued
    rw [← restored.entries] at member
    obtain ⟨cli, _, same⟩ := records item member
    rw [restored.clientAt] at same
    simp [JSM.wanted, same, JSM.restoredEntry, clientFromProto] at wanted

end Clients

/-! ## The restored state -/

/-- The state of `origin` has come through a snapshot into `target`. -/
structure Restored (origin target after : JSM) : Prop where
  jobs : JobsOk .all after
  recordOf : ∀ id, after.recordOf id = (origin.recordOf id).map Job.restored
  bound : ∀ id record, origin.recordOf id = some record → id ≤ after.maxJobID
  reached : after.maxJobID = 0 ∨ ∃ record, origin.recordOf after.maxJobID = some record
  nextDelayTickAt : after.nextDelayTickAt = target.nextDelayTickAt
  clients : ClientsOk after
  ids : after.clients.entries.map (·.cliID) = origin.snapshotClients.map (·.cliID)
  queues : ∀ tubeName, (after.waitingAt tubeName).entries = []

section Restore

variable {kinds : Kinds} {origin target : JSM}

theorem noJobs_newLocalSnapshot (jsm : JSM) : NoJobs (newLocalSnapshot jsm) where
  heapAt := fun key => by cases key <;> rfl
  lookup := fun _ => rfl
  maxJobID := rfl

theorem NoJobs.of_clientFrame {before after : JSM} (noJobs : NoJobs before)
    (frame : ClientFrame before after) : NoJobs after := by
  obtain ⟨jobs, _, _, _, _, heapAt⟩ := JSM.fields_of_jobView frame.jobs
  refine ⟨?_, ?_, ?_⟩
  · rw [heapAt]
    exact noJobs.heapAt
  · rw [jobs]
    exact noJobs.lookup
  · rw [frame.maxJobID]
    exact noJobs.maxJobID

theorem clientClosed_noJobs : ClientClosed NoJobs where
  updateClient jsm cli change noJobs := noJobs.of_clientFrame (.updateClient jsm cli change)
  putClientHeap jsm heap noJobs := noJobs.of_clientFrame (.putClientHeap jsm heap)
  setClients jsm clients noJobs := noJobs.of_clientFrame (.setClients jsm clients)
  setWaiting jsm tubeName queue noJobs :=
    noJobs.of_clientFrame (.setWaiting jsm tubeName queue)
  createTube jsm tubeName noJobs := noJobs.of_clientFrame (.createTube jsm tubeName)
  allocClient _ _ _ noJobs := noJobs.of_clientFrame ⟨rfl, rfl, rfl, fun _ present => present⟩

section ClientClosed

variable {inv : JSM → Prop} (closed : ClientClosed inv)

include closed

theorem keeps_restoreClientRound (slots : List (Option CliPtr)) (cli : CliPtr) :
    Prog.Keeps inv (restoreClientRound slots cli) := by
  have fills : ∀ index, Prog.Keeps inv (fillSlot slots index cli) := by
    intro index jsm holds
    unfold fillSlot
    split
    · exact holds
    · trivial
  have restores : Prog.Keeps inv (restoreClient slots cli) := by
    refine (keeps_readClient cli).bind fun record => (Prog.keeps_require _ _).bind fun _ =>
      (closed.keeps_enqueueClient cli).bind fun _ => ?_
    split
    · exact (keeps_forEach _ fun tubeName => closed.keeps_enqueueToWaitQ tubeName cli).bind
        fun _ => fills _
    · exact (Prog.keeps_pure _).bind fun _ => fills _
  refine restores.attempt.bind fun restored => ?_
  split
  · exact Prog.keeps_pure _
  · exact Prog.keeps_crash _

theorem keeps_allocClients (protos : List ClientResvEntryProto) :
    Prog.Keeps inv (allocClients protos) := by
  induction protos with
  | nil => exact Prog.keeps_pure _
  | cons proto protos induction =>
      exact (closed.keeps_allocClient _ _).bind fun _ => induction.bind fun _ => Prog.keeps_pure _

theorem keeps_restoreCliRevEntries (protos : List ClientResvEntryProto) :
    Prog.Keeps inv (restoreCliRevEntries protos) := by
  refine (keeps_allocClients closed protos).bind fun entries =>
    (Prog.keeps_foldlM _ _ fun slots cli => keeps_restoreClientRound closed slots cli).bind
      fun slots => ?_
  split
  · exact Prog.keeps_crash _
  · exact Prog.keeps_modify fun jsm => closed.putClientHeap jsm _

end ClientClosed

/-- Whatever happens to the clients, a restore that succeeds brings all jobs back, and one that
fails leaves the state machine as it was. -/
theorem ends_restoreSnapshotTo (inv : JobsOk kinds origin) (walk : JobWalk) (target : JSM) :
    (restoreSnapshotTo (origin.newSnapshotFrom walk) target).Ends
      (fun _ after => JobsOk .all after ∧
        ∀ id, after.recordOf id = (origin.recordOf id).map Job.restored)
      (fun _ after => after = target) True := by
  have restores : (restoreTo (origin.newSnapshotFrom walk) (newLocalSnapshot target)).Ends
      (fun _ after => JobsOk .all after ∧
        ∀ id, after.recordOf id = (origin.recordOf id).map Job.restored)
      (fun _ _ => True) True := by
    refine Prog.ends_bind ((keeps_restoreCliRevEntries clientClosed_noJobs _ _
      (noJobs_newLocalSnapshot target)).mono (fun _ _ noJobs => noJobs) (fun _ _ _ => trivial)
      id) fun _ middle noJobs => ?_
    obtain ⟨after, returns, jobs⟩ := restoreJobs_newSnapshotFrom inv walk noJobs
    rw [returns]
    refine ⟨jobs.inv, fun id => ?_⟩
    rw [jobs.recordOf]
    exact inv.find_restored walk id
  unfold restoreSnapshotTo
  cases outcome : restoreTo (origin.newSnapshotFrom walk) (newLocalSnapshot target) with
  | ok value after =>
      rw [outcome] at restores
      exact ⟨restores.1.congr rfl rfl rfl rfl fun key => by cases key <;> rfl, restores.2⟩
  | err error after => exact rfl
  | panic cause => trivial

/-- A snapshot with few enough clients can be restored into every state
machine. -/
theorem restoreSnapshotTo_returns (ok : ContainersOk kinds origin)
    (small : origin.clientHeap.length ≤ 2 ^ 31) (walk : JobWalk) (target : JSM) :
    ∃ after, restoreSnapshotTo (origin.newSnapshotFrom walk) target = .ok () after ∧
      Restored origin target after := by
  obtain ⟨middle, restoresClients, clientsOk, ids, queues, frame⟩ :=
    restoreCliRevEntries_returns ok.clients small walk (noClients_newLocalSnapshot target)
  obtain ⟨after, restoresJobs, jobs⟩ := restoreJobs_newSnapshotFrom ok.jobs walk
    ((noJobs_newLocalSnapshot target).of_clientFrame frame)
  have emitted : ∀ {id : JobID} {record : Job}, origin.recordOf id = some record →
      record.restored ∈ (origin.snapshotJobs walk).map Job.restored := by
    intro id record recorded
    apply List.mem_map_of_mem
    rw [ok.jobs.mem_snapshotJobs, ok.jobs.recordOf_id recorded]
    exact recorded
  obtain ⟨sameClients, _, _, _, sameQueues⟩ := JSM.fields_of_clientView jobs.clients
  refine ⟨finalizeRestore after target, ?_, ?_, ?_, ?_, ?_, rfl, ?_, ?_, ?_⟩
  · have restores : restoreTo (origin.newSnapshotFrom walk) (newLocalSnapshot target) =
        .ok () after := by
      unfold restoreTo
      rw [Prog.bind_apply, restoresClients, Outcome.ok_andThen, restoresJobs]
    simp only [restoreSnapshotTo, restores]
  · exact jobs.inv.congr rfl rfl rfl rfl fun key => by cases key <;> rfl
  · intro id
    change after.recordOf id = _
    rw [jobs.recordOf]
    exact ok.jobs.find_restored walk id
  · intro id record recorded
    rw [← ok.jobs.recordOf_id recorded]
    exact jobs.bound record.restored (emitted recorded)
  · change after.maxJobID = 0 ∨ ∃ record, origin.recordOf after.maxJobID = some record
    refine jobs.reached.imp_right fun reaches => ?_
    obtain ⟨restored, member, same⟩ := reaches
    obtain ⟨record, isEmitted, rfl⟩ := List.mem_map.mp member
    rw [← same]
    exact ⟨record, (ok.jobs.mem_snapshotJobs walk record).mp isEmitted⟩
  · exact (clientsOk.of_clientView jobs.clients).of_clientView rfl
  · change after.clients.entries.map _ = _
    rw [sameClients]
    exact ids
  · intro tubeName
    change (after.waitingAt tubeName).entries = []
    rw [sameQueues]
    exact queues tubeName

/-! ## Too many clients -/

section Memory

variable {memory : CliPtr → ClientResvEntry}

theorem keepsMemory_enqueueToWaitQ (tubeName : TubeName) (cli : CliPtr) :
    Prog.Keeps (fun jsm => jsm.clientAt = memory) (enqueueToWaitQ tubeName cli) := by
  unfold enqueueToWaitQ getByName
  refine Prog.Keeps.bind ?_ fun _ => Prog.Keeps.bind (Prog.keeps_gets _) fun queue => ?_
  · refine Prog.keeps_modify fun jsm same => ?_
    rw [← same]
    exact (JSM.fields_of_clientView (SameViews.createTube jsm tubeName).frame.clients).2.2.1
  · split
    · refine Prog.keeps_modify fun jsm same => ?_
      rw [← same]
      unfold JSM.setWaiting JSM.modifyTube
      split <;> rfl
    · exact Prog.keeps_fail _

theorem keepsMemory_enqueueClient (cli : CliPtr) :
    Prog.Keeps (fun jsm => jsm.clientAt = memory) (enqueueClient cli) := by
  intro jsm same
  unfold enqueueClient
  split <;> exact same

/-- Only an entry that remembers one of the slots can be restored. -/
theorem ends_restoreClient {slots : List (Option CliPtr)} {cli : CliPtr} {jsm : JSM}
    (same : jsm.clientAt = memory) :
    (restoreClient slots cli jsm).Ends
      (fun next after => after.clientAt = memory ∧ next.length = slots.length ∧
        0 ≤ (memory cli).heapIndex ∧ (memory cli).heapIndex < slots.length)
      (fun _ _ => True) True := by
  have fills : ∀ index state, state.clientAt = memory →
      (fillSlot slots index cli state).Ends
        (fun next after => after.clientAt = memory ∧ next.length = slots.length ∧
          0 ≤ index ∧ index < slots.length) (fun _ _ => True) True := by
    intro index state kept
    unfold fillSlot
    split
    next inside => exact ⟨kept, List.length_set, inside⟩
    next => trivial
  unfold restoreClient
  rw [readClient_bind, same, Prog.bind_apply, Prog.require_apply]
  split
  next =>
    rw [Outcome.ok_andThen]
    refine Prog.ends_bind ((keepsMemory_enqueueClient cli jsm same).mono (fun _ _ => id)
      (fun _ _ _ => trivial) id) fun _ middle kept => ?_
    split
    · refine Prog.ends_bind ((Prog.keeps_foldlM _ () (fun _ tubeName =>
        keepsMemory_enqueueToWaitQ tubeName cli) middle kept).mono (fun _ _ => id)
        (fun _ _ _ => trivial) id) fun _ last keptLast => ?_
      exact fills _ last keptLast
    · exact fills _ middle kept
  next => trivial

theorem ends_restoreClients (entries : List CliPtr) (jsm : JSM) :
    (restoreClients entries jsm).Ends
      (fun _ _ => ∀ cli ∈ entries, 0 ≤ (jsm.clientAt cli).heapIndex ∧
        (jsm.clientAt cli).heapIndex < entries.length)
      (fun _ _ => True) True := by
  unfold restoreClients
  refine Prog.ends_bind (Prog.ends_foldlM entries (fun done slots after =>
    after.clientAt = jsm.clientAt ∧ slots.length = entries.length ∧
      ∀ cli ∈ done, 0 ≤ (jsm.clientAt cli).heapIndex ∧
        (jsm.clientAt cli).heapIndex < entries.length) ?_
    ⟨rfl, List.length_replicate, by simp⟩) fun slots after looped => ?_
  · intro done cli rest slots state _ looped
    obtain ⟨same, length, placed⟩ := looped
    unfold restoreClientRound
    refine Prog.ends_bind (Prog.ends_attempt (fun result after =>
      ∀ next, result = .ok next → after.clientAt = jsm.clientAt ∧
        next.length = entries.length ∧ 0 ≤ (jsm.clientAt cli).heapIndex ∧
          (jsm.clientAt cli).heapIndex < entries.length)
      ((ends_restoreClient same).mono ?_ ?_ id)) ?_
    · rintro next after ends _ ⟨rfl⟩
      rw [length] at ends
      exact ends
    · intro error after _ next impossible
      cases impossible
    · intro result after ends
      cases result with
      | error error => trivial
      | ok next =>
          obtain ⟨kept, sameLength, inside⟩ := ends next rfl
          refine ⟨kept, sameLength, fun other member => ?_⟩
          rcases List.mem_append.mp member with old | new
          · exact placed other old
          · rw [List.mem_singleton.mp new]
            exact inside
  · cases slots.allSome with
    | none => trivial
    | some clis => exact looped.2.2

end Memory

/-- A snapshot that can be restored has no more clients on the client heap than
32 bits can number. -/
theorem length_le_of_restores (ok : ClientsOk origin) {walk : JobWalk} {after : JSM}
    (restores : restoreSnapshotTo (origin.newSnapshotFrom walk) target = .ok () after) :
    origin.clientHeap.length ≤ 2 ^ 31 := by
  have nodup : origin.snapshotClients.Nodup := ok.restorable.ids.of_map _
  obtain ⟨middle, allocates, allocated⟩ := allocClients_returns
    (fun cli => clientRsvEntryProto cli (origin.clientAt cli)) (fun _ => rfl) nodup
    (newLocalSnapshot target)
  have unfolded : restoreTo (origin.newSnapshotFrom walk) (newLocalSnapshot target) =
      (restoreClients (origin.snapshotClients.map
          (relocate target.nextClient origin.snapshotClients)) middle).andThen
        fun _ => restoreJobs (origin.newSnapshotFrom walk).jobs := by
    unfold restoreTo restoreCliRevEntries
    rw [Prog.bind_apply, Prog.bind_apply]
    change ((allocClients (origin.snapshotClients.map _) _).andThen _).andThen _ = _
    rw [allocates, Outcome.ok_andThen]
    rfl
  have placed := ends_restoreClients (origin.snapshotClients.map
    (relocate target.nextClient origin.snapshotClients)) middle
  cases returns : restoreClients (origin.snapshotClients.map
      (relocate target.nextClient origin.snapshotClients)) middle with
  | err error state =>
      simp only [restoreSnapshotTo, unfolded, returns] at restores
      cases restores
  | panic cause =>
      simp only [restoreSnapshotTo, unfolded, returns] at restores
      cases restores
  | ok value state =>
      rw [returns] at placed
      by_contra many
      -- the entry of slot 2 ^ 31 comes back with a negative slot number
      obtain ⟨cli, atSlot⟩ : ∃ cli, origin.clientHeap[2 ^ 31]? = some cli :=
        ⟨_, List.getElem?_eq_getElem (not_le.mp many)⟩
      have emitted : cli ∈ origin.snapshotClients :=
        (ok.inv.mem_snapshotClients cli).mpr (List.mem_of_getElem? atSlot)
      have positive := (placed _ (List.mem_map_of_mem emitted)).1
      rw [show relocate target.nextClient _ cli = relocate (newLocalSnapshot target).nextClient
        origin.snapshotClients cli from rfl, allocated.clientAt cli emitted] at positive
      have position : (origin.clientAt cli).heapIndex = ((2 ^ 31 : Nat) : Int) :=
        ok.inv.tracked _ cli atSlot
      change 0 ≤ (Int32.ofInt (origin.clientAt cli).heapIndex).toInt at positive
      rw [position] at positive
      exact absurd positive (by decide)

theorem Restored.of_restores (ok : ContainersOk kinds origin) {walk : JobWalk} {after : JSM}
    (restores : restoreSnapshotTo (origin.newSnapshotFrom walk) target = .ok () after) :
    Restored origin target after := by
  obtain ⟨restored, returns, isRestored⟩ := restoreSnapshotTo_returns ok
    (length_le_of_restores ok.clients restores) walk target
  rw [restores] at returns
  cases returns
  exact isRestored

end Restore

end Coolbeans
