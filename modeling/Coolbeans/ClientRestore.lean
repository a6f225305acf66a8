import Coolbeans.ClientRuns

/-!
# Restoring the client containers

`RestoreClients` puts each entry into the slot of the client heap that the
entry remembers.  The entries that `SnapshotClients` emits remember the slots
of a heap, each once, so every slot is filled and the heap comes back as it
was.
-/

namespace Coolbeans

open FiniteMap PositionHeap StatefulProgram

/-- The entries have ids of their own and remember the slots of a heap. -/
structure Fills (clientAt : CliPtr → ClientResvEntry) (entries heap : List CliPtr) : Prop where
  ids : (entries.map (·.cliID)).Nodup
  perm : heap.Perm entries
  tracked : Tracked clientStore ⟨heap, clientAt⟩
  tubes : ∀ cli ∈ entries, (clientAt cli).isWaitingForResv = true →
    (clientAt cli).watchedTubes.Nodup

/-- The heap is ordered, too. -/
structure Restorable (clientAt : CliPtr → ClientResvEntry) (entries heap : List CliPtr) :
    Prop extends Fills clientAt entries heap where
  ordered : Ordered (clientSortKey clientAt) heap

section Agree

variable {clientAt other : CliPtr → ClientResvEntry} {entries heap : List CliPtr}

/-- Whether entries can be restored depends on their own memory only. -/
theorem Fills.of_agree (fills : Fills clientAt entries heap)
    (same : ∀ cli ∈ entries, other cli = clientAt cli) : Fills other entries heap where
  ids := fills.ids
  perm := fills.perm
  tracked := by
    intro i cli occupied
    have member := fills.perm.mem_iff.mp (List.mem_of_getElem? occupied)
    change (other cli).heapIndex = i
    rw [same cli member]
    exact fills.tracked i cli occupied
  tubes := by
    intro cli member
    rw [same cli member]
    exact fills.tubes cli member

theorem Restorable.of_agree (restorable : Restorable clientAt entries heap)
    (same : ∀ cli ∈ entries, other cli = clientAt cli) : Restorable other entries heap where
  toFills := restorable.toFills.of_agree same
  ordered := by
    apply restorable.ordered.congr
    intro cli member
    rw [clientSortKey, clientSortKey, same cli (restorable.perm.mem_iff.mp member)]

end Agree

/-- The client containers hold the entries, and the client heap is as given. -/
structure ClientsRestored (restored heap : List CliPtr) (before after : JSM) : Prop where
  entries : after.clients.entries = restored
  clientHeap : after.clientHeap = heap
  clientAt : after.clientAt = before.clientAt
  nextClient : after.nextClient = before.nextClient
  queues : ∀ tubeName, (after.waitingAt tubeName).entries =
    restored.filter fun cli => tubeName ∈ before.wanted cli
  frame : ClientFrame before after

theorem ClientsRestored.mem_queue {restored heap : List CliPtr} {before after : JSM}
    (isRestored : ClientsRestored restored heap before after) (tubeName : TubeName)
    (cli : CliPtr) : cli ∈ (after.waitingAt tubeName).entries ↔
      cli ∈ restored ∧ tubeName ∈ before.wanted cli := by
  rw [isRestored.queues, List.mem_filter, decide_eq_true_eq]

/-- No client is registered, on the client heap or in a wait queue. -/
structure NoClients (jsm : JSM) : Prop where
  entries : jsm.clients.entries = []
  clientHeap : jsm.clientHeap = []
  queues : ∀ tubeName, (jsm.waitingAt tubeName).entries = []

theorem noClients_newLocalSnapshot (jsm : JSM) : NoClients (newLocalSnapshot jsm) :=
  ⟨rfl, rfl, fun _ => rfl⟩

/-! ## One client -/

theorem enqueueToWaitQ_of_joinWaitQ {jsm after : JSM} {cli : CliPtr} {tubeName : TubeName}
    (joins : joinWaitQ cli tubeName jsm = .ok () after) :
    enqueueToWaitQ tubeName cli jsm = .ok () after := by
  unfold joinWaitQ at joins
  rw [Prog.bind_apply] at joins
  cases enqueues : enqueueToWaitQ tubeName cli jsm with
  | ok value middle =>
      rw [Prog.attempt_of_ok enqueues] at joins
      exact joins
  | err error middle =>
      rw [Prog.attempt_of_err enqueues] at joins
      cases joins
  | panic cause =>
      simp only [Prog.attempt, enqueues] at joins
      cases joins

/-- Entering the queues of distinct tubes, the client being in none of them. -/
theorem enqueueToWaitQs_returns {jsm : JSM} {cli : CliPtr} {tubeNames : List TubeName}
    (absent : ∀ tubeName, ∀ other ∈ (jsm.waitingAt tubeName).entries, other.cliID ≠ cli.cliID)
    (nodup : tubeNames.Nodup) :
    ∃ after, forEach (fun tubeName => enqueueToWaitQ tubeName cli) tubeNames jsm = .ok () after ∧
      Requeued (jsm.queuesWith cli tubeNames) jsm after := by
  obtain ⟨_, after, joins, _, requeued⟩ :=
    ((ends_joinWaitQs tubeNames absent).mono (fun _ _ => id) (fun _ _ => id)
      fun twice => twice nodup).returns
  refine ⟨after, ?_, requeued⟩
  exact Prog.foldlM_of_ok tubeNames
    (fun _ tubeName state _ next => @enqueueToWaitQ_of_joinWaitQ state next cli tubeName) joins

/-- The state of the loop of `RestoreClients`. -/
structure Restoring (heap done : List CliPtr) (slots : List (Option CliPtr))
    (before after : JSM) : Prop where
  restored : ClientsRestored done [] before after
  slots : slots = heap.map fun cli => if cli ∈ done then some cli else none

section Restore

variable {entries heap : List CliPtr} {before jsm : JSM}

theorem Fills.position (fills : Fills jsm.clientAt entries heap) {cli : CliPtr}
    (member : cli ∈ entries) :
    ∃ i : Nat, heap[i]? = some cli ∧ i < heap.length ∧ (jsm.clientAt cli).heapIndex = i := by
  obtain ⟨i, occupied⟩ := List.getElem?_of_mem (fills.perm.mem_iff.mpr member)
  obtain ⟨bound, _⟩ := List.getElem?_eq_some_iff.mp occupied
  exact ⟨i, occupied, bound, fills.tracked i cli occupied⟩

theorem set_slot (tracked : Tracked clientStore ⟨heap, jsm.clientAt⟩) {cli : CliPtr} {i : Nat}
    (occupied : heap[i]? = some cli) (done : List CliPtr) :
    (heap.map fun other => if other ∈ done then some other else none).set i (some cli) =
      heap.map fun other => if other ∈ done ++ [cli] then some other else none := by
  apply List.ext_getElem?
  intro j
  rw [List.getElem?_set, List.length_map]
  obtain ⟨bound, _⟩ := List.getElem?_eq_some_iff.mp occupied
  by_cases same : i = j
  · subst j
    rw [if_pos rfl, if_pos bound, List.getElem?_map, occupied]
    simp
  · rw [if_neg same, List.getElem?_map, List.getElem?_map]
    cases other : heap[j]? with
    | none => rfl
    | some found =>
        have different : found ≠ cli := by
          intro isCli
          subst isCli
          exact same (tracked.slot_unique clientStore occupied other)
        simp [different]

theorem restoreClient_returns (fills : Fills before.clientAt entries heap)
    {done rest : List CliPtr} {cli : CliPtr} (split : entries = done ++ cli :: rest)
    {slots : List (Option CliPtr)} (restoring : Restoring heap done slots before jsm) :
    ∃ next after, restoreClient slots cli jsm = .ok next after ∧
      Restoring heap (done ++ [cli]) next before after := by
  obtain ⟨restored, isSlots⟩ := restoring
  have member : cli ∈ entries := by simp [split]
  obtain ⟨i, occupied, bound, position⟩ := fills.position member
  have absent : ∀ other ∈ done, other.cliID ≠ cli.cliID := by
    have ids := fills.ids
    rw [split, List.map_append, List.nodup_append] at ids
    intro other member
    exact ids.2.2 _ (List.mem_map.mpr ⟨other, member, rfl⟩) _
      (List.mem_map.mpr ⟨cli, List.mem_cons_self, rfl⟩)
  obtain ⟨clients, accepted, clientEntries⟩ :=
    jsm.clients.enqueue_of_absent cli (by rw [restored.entries]; exact absent)
  have registers : enqueueClient cli jsm = .ok () { jsm with clients := clients } := by
    simp only [enqueueClient, accepted]
  have fillsSlot : ∀ state, fillSlot slots i cli state =
      .ok (slots.set i (some cli)) state := by
    intro state
    unfold fillSlot
    rw [if_pos (by simp [isSlots, bound])]
    rfl
  have nextSlots : slots.set i (some cli) =
      heap.map fun other => if other ∈ done ++ [cli] then some other else none := by
    rw [isSlots]
    exact set_slot fills.tracked occupied done
  have frame : ClientFrame before { jsm with clients := clients } :=
    restored.frame.trans (.setClients jsm clients)
  unfold restoreClient
  rw [readClient_bind, restored.clientAt, Prog.bind_apply, Prog.require_apply, position,
    if_pos (by omega), Outcome.ok_andThen, Prog.bind_apply, registers, Outcome.ok_andThen]
  by_cases waiting : (before.clientAt cli).isWaitingForResv = true
  · have wanted : before.wanted cli = (before.clientAt cli).watchedTubes := if_pos waiting
    have others : ∀ tubeName other, other ∈ (jsm.waitingAt tubeName).entries → _ :=
      fun tubeName other member => absent other ((restored.mem_queue tubeName other).mp member).1
    obtain ⟨after, joins, requeued⟩ :=
      @enqueueToWaitQs_returns { jsm with clients := clients } cli
        (before.clientAt cli).watchedTubes others (fills.tubes cli member waiting)
    rw [if_pos waiting, Prog.bind_apply, joins, Outcome.ok_andThen]
    refine ⟨_, after, fillsSlot after, ⟨?_, ?_, ?_, ?_, ?_, frame.trans requeued.frame⟩, nextSlots⟩
    · rw [requeued.clients, ← restored.entries]
      exact clientEntries
    · exact requeued.clientHeap.trans restored.clientHeap
    · exact requeued.clientAt.trans restored.clientAt
    · exact requeued.nextClient.trans restored.nextClient
    · intro tubeName
      rw [requeued.queues]
      change (if _ then (jsm.waitingAt tubeName).entries ++ [cli]
        else (jsm.waitingAt tubeName).entries) = _
      rw [List.filter_append, ← restored.queues, ← wanted]
      split
      next watched => simp [watched]
      next unwatched => simp [unwatched]
  · have wanted : before.wanted cli = [] := if_neg waiting
    rw [if_neg waiting]
    refine ⟨_, _, fillsSlot _, ⟨?_, restored.clientHeap, restored.clientAt, restored.nextClient, ?_,
      frame⟩, nextSlots⟩
    · rw [← restored.entries]
      exact clientEntries
    · intro tubeName
      rw [List.filter_append, ← restored.queues]
      simp [wanted, JSM.waitingAt]

/-! ## All clients -/

theorem allSome_map_some {α : Type} (items : List α) : (items.map some).allSome = some items := by
  unfold List.allSome
  induction items with
  | nil => rfl
  | cons item items induction => simp [List.mapM_cons, induction]

/-- Every slot is filled, and then the heap is put into order. -/
theorem restoreClients_fills (fills : Fills before.clientAt entries heap)
    (noClients : NoClients before) :
    ∃ middle, ClientsRestored entries [] before middle ∧
      restoreClients entries before = .ok () (middle.putClientHeap
        (init clientStore (clientResvLess middle.clientAt) ⟨heap, middle.clientAt⟩)) := by
  have loop : (entries.foldlM restoreClientRound (List.replicate entries.length none)
      before).Ends (fun slots after => Restoring heap entries slots before after)
      (fun _ _ => False) False := by
    refine Prog.ends_foldlM entries (fun done slots after => Restoring heap done slots before after)
      ?_ ⟨⟨noClients.entries, noClients.clientHeap, rfl, rfl, ?_, .refl before⟩, ?_⟩
    · intro done cli rest slots jsm split restoring
      obtain ⟨next, after, returns, restored⟩ := restoreClient_returns fills split restoring
      unfold restoreClientRound
      rw [Prog.bind_apply, Prog.attempt_of_ok returns, Outcome.ok_andThen]
      exact restored
    · simp [noClients.queues]
    · simp [fills.perm.length_eq]
  obtain ⟨slots, middle, returns, restored, isSlots⟩ := loop.returns
  have filled : slots = heap.map some := by
    rw [isSlots]
    apply List.map_congr_left
    intro cli member
    rw [if_pos (fills.perm.mem_iff.mp member)]
  refine ⟨middle, restored, ?_⟩
  unfold restoreClients
  rw [Prog.bind_apply, returns, Outcome.ok_andThen, filled, allSome_map_some]
  rfl

theorem restoreClients_returns (restorable : Restorable before.clientAt entries heap)
    (noClients : NoClients before) :
    ∃ after, restoreClients entries before = .ok () after ∧
      ClientsRestored entries heap before after := by
  obtain ⟨middle, restored, returns⟩ := restoreClients_fills restorable.toFills noClients
  have settled : init clientStore (clientResvLess middle.clientAt) ⟨heap, middle.clientAt⟩ =
      ⟨heap, middle.clientAt⟩ := by
    apply init_of_ordered clientStore (compares_clientResvLess middle.clientAt)
    rw [restored.clientAt]
    exact restorable.ordered
  rw [settled] at returns
  refine ⟨_, returns, restored.entries, rfl, restored.clientAt, restored.nextClient,
    restored.queues, ?_⟩
  exact restored.frame.trans (.putClientHeap middle _)

end Restore

/-! ## The entries of a snapshot -/

section Snapshot

variable {wants : CliPtr → List TubeName} {jsm : JSM}

/-- A snapshot emits the members of the client heap. -/
theorem ClientInv.mem_snapshotClients (inv : ClientInv wants jsm) (cli : CliPtr) :
    cli ∈ jsm.snapshotClients ↔ cli ∈ jsm.clientHeap := by
  unfold JSM.snapshotClients
  rw [List.mem_filter, decide_eq_true_eq]
  constructor
  · intro emitted
    obtain ⟨registered, onHeap⟩ := emitted
    rw [inv.heapIndex_neg_iff registered] at onHeap
    exact not_not.mp onHeap
  · intro member
    have registered := inv.onHeap cli member
    rw [inv.heapIndex_neg_iff registered]
    exact ⟨registered, not_not.mpr member⟩

theorem ClientInv.perm_snapshotClients (inv : ClientInv wants jsm) :
    jsm.clientHeap.Perm jsm.snapshotClients := by
  apply (List.perm_ext_iff_of_nodup inv.tracked.nodup
    (jsm.clients.nodup_entries.filter _)).mpr
  exact fun cli => (inv.mem_snapshotClients cli).symm

theorem ClientsOk.restorable (ok : ClientsOk jsm) :
    Restorable jsm.clientAt jsm.snapshotClients jsm.clientHeap where
  ids := jsm.clients.nodup_ids.sublist (List.filter_sublist.map _)
  perm := ok.inv.perm_snapshotClients
  tracked := ok.inv.tracked
  ordered := ok.inv.ordered
  tubes := fun cli member => ok.nodup cli (List.mem_of_mem_filter member)

theorem map_heapIndex (tracked : Tracked clientStore jsm.clientHeapState) :
    (jsm.clientHeap.map fun cli => (jsm.clientAt cli).heapIndex) =
      (List.range jsm.clientHeap.length).map Int.ofNat := by
  apply List.ext_getElem
  · simp
  · intro i bound _
    rw [List.length_map] at bound
    rw [List.getElem_map, List.getElem_map, List.getElem_range]
    exact tracked i _ (List.getElem?_eq_getElem bound)

/-- The entries that a snapshot emits carry the positions of the client heap,
each once, and `RestoreClients` makes an ordered heap of them. -/
theorem clientHeap_restored (reachable : Reachable (fun _ op => op.ClockBounded) jsm) :
    (jsm.snapshotClients.map fun cli => (jsm.clientAt cli).heapIndex).Perm
        ((List.range jsm.snapshotClients.length).map Int.ofNat) ∧
      (∀ cli ∈ jsm.clientHeap, cli ∈ jsm.snapshotClients) ∧
      ∀ target : JSM, (∀ cli ∈ jsm.snapshotClients, target.clientAt cli = jsm.clientAt cli) →
        ∃ restored, restoreClients jsm.snapshotClients (newLocalSnapshot target) =
            .ok () restored ∧
          restored.clientHeap.Perm jsm.snapshotClients ∧
          Ordered (clientSortKey restored.clientAt) restored.clientHeap ∧
          Tracked clientStore restored.clientHeapState := by
  have ok : ClientsOk jsm :=
    ((admissible_anyRun fun _ _ bounded => bounded.deadlineBounded).reachable reachable).clients
  have perm := ok.inv.perm_snapshotClients
  refine ⟨?_, fun cli => (ok.inv.mem_snapshotClients cli).mpr, fun target same => ?_⟩
  · rw [← perm.length_eq, ← map_heapIndex ok.inv.tracked]
    exact perm.symm.map _
  · have restorable : Restorable (newLocalSnapshot target).clientAt jsm.snapshotClients
        jsm.clientHeap := ok.restorable.of_agree same
    obtain ⟨restored, returns, isRestored⟩ :=
      restoreClients_returns restorable (noClients_newLocalSnapshot target)
    refine ⟨restored, returns, ?_, ?_, ?_⟩
    · rw [isRestored.clientHeap]
      exact perm
    · rw [isRestored.clientHeap, isRestored.clientAt]
      exact restorable.ordered
    · rw [JSM.clientHeapState, isRestored.clientHeap, isRestored.clientAt]
      exact restorable.tracked

end Snapshot

/-- A run with two clients on the client heap and one that has been taken off
it, though it is still registered. -/
def oneOffHeap : List Op :=
  [.appendReservation [7] [1] [[1]] 10 20, .appendReservation [8] [2] [[1]] 10 15,
    .appendReservation [9] [3] [[2]] 10 30, .tick 16 .inOrder]

theorem clientHeap_restored_oneOffHeap :
    (stateAfter oneOffHeap).clients.entries.map (·.cliID) = [[7], [8], [9]] ∧
      (stateAfter oneOffHeap).snapshotClients.map (·.cliID) = [[7], [9]] ∧
      ∃ restored, restoreClients (stateAfter oneOffHeap).snapshotClients
        (newLocalSnapshot (stateAfter oneOffHeap)) = .ok () restored := by
  have bounded : ∀ op ∈ oneOffHeap, op.ClockBounded := by decide
  refine ⟨by decide +kernel, by decide +kernel, ?_⟩
  obtain ⟨restored, returns, _⟩ := (clientHeap_restored (reachable_stateAfter _
    fun op member _ => bounded op member)).2.2 (stateAfter oneOffHeap) fun _ _ => rfl
  exact ⟨restored, returns⟩

end Coolbeans
