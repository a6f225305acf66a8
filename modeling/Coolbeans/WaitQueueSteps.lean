import Coolbeans.ClientInvariant
import Mathlib.Logic.Function.Basic

/-!
# Entering and leaving the wait queues

A client that asks for a reservation enters the wait queues of its tubes one
by one, and leaves them one by one when it is answered.
-/

namespace Coolbeans

open FiniteMap PositionHeap StatefulProgram

theorem ClientFrame.setWaiting (jsm : JSM) (tubeName : TubeName) (queue : ClientResvQueue) :
    ClientFrame jsm (jsm.setWaiting tubeName queue) := by
  have heaps : (jsm.setWaiting tubeName queue).heapAt = jsm.heapAt :=
    funext (JSM.heapAt_setWaiting tubeName queue)
  refine ⟨?_, ?_, ?_, fun other present => ?_⟩
  · simp only [JSM.jobView, heaps]
    unfold JSM.setWaiting JSM.modifyTube
    split <;> rfl
  · unfold JSM.setWaiting JSM.modifyTube
    split <;> rfl
  · unfold JSM.setWaiting JSM.modifyTube
    split <;> rfl
  · rw [JSM.setWaiting, JSM.hasTube_modifyTube, present]

theorem ClientFrame.createTube (jsm : JSM) (tubeName : TubeName) :
    ClientFrame jsm (jsm.createTube tubeName) := by
  have same := SameViews.createTube jsm tubeName
  refine ⟨same.jobs, same.frame.nextDelayTickAt, same.frame.maxJobID, fun other present => ?_⟩
  rw [JSM.hasTube_createTube, present, Bool.or_true]

/-- The wait queues have changed, the other client containers have not. -/
structure Requeued (queues : TubeName → List CliPtr) (before after : JSM) : Prop where
  clients : after.clients = before.clients
  clientHeap : after.clientHeap = before.clientHeap
  clientAt : after.clientAt = before.clientAt
  nextClient : after.nextClient = before.nextClient
  queues : ∀ tubeName, (after.waitingAt tubeName).entries = queues tubeName
  frame : ClientFrame before after

theorem Requeued.refl (jsm : JSM) :
    Requeued (fun tubeName => (jsm.waitingAt tubeName).entries) jsm jsm :=
  ⟨rfl, rfl, rfl, rfl, fun _ => rfl, .refl jsm⟩

theorem Requeued.setWaiting {queues : TubeName → List CliPtr} {before middle : JSM}
    (requeued : Requeued queues before middle) {tubeName : TubeName}
    (present : middle.hasTube tubeName = true) (queue : ClientResvQueue) :
    Requeued (Function.update queues tubeName queue.entries) before
      (middle.setWaiting tubeName queue) := by
  have fields : (middle.setWaiting tubeName queue).clients = middle.clients ∧
      (middle.setWaiting tubeName queue).clientHeap = middle.clientHeap ∧
      (middle.setWaiting tubeName queue).clientAt = middle.clientAt ∧
      (middle.setWaiting tubeName queue).nextClient = middle.nextClient := by
    unfold JSM.setWaiting JSM.modifyTube
    split <;> exact ⟨rfl, rfl, rfl, rfl⟩
  obtain ⟨clients, clientHeap, clientAt, nextClient⟩ := fields
  refine ⟨clients.trans requeued.clients, clientHeap.trans requeued.clientHeap,
    clientAt.trans requeued.clientAt, nextClient.trans requeued.nextClient, fun other => ?_,
    requeued.frame.trans (.setWaiting middle tubeName queue)⟩
  rw [JSM.waitingAt_setWaiting present, Function.update_apply]
  split
  next => rfl
  next => exact requeued.queues other

theorem Requeued.createTube {queues : TubeName → List CliPtr} {before middle : JSM}
    (requeued : Requeued queues before middle) (tubeName : TubeName) :
    Requeued queues before (middle.createTube tubeName) := by
  have views := (SameViews.createTube middle tubeName).frame.clients
  simp only [JSM.clientView, Prod.mk.injEq] at views
  obtain ⟨clients, clientHeap, clientAt, nextClient, _⟩ := views
  refine ⟨clients.trans requeued.clients, clientHeap.trans requeued.clientHeap,
    clientAt.trans requeued.clientAt, nextClient.trans requeued.nextClient, fun other => ?_,
    requeued.frame.trans (.createTube middle tubeName)⟩
  rw [JSM.waitingAt_createTube]
  exact requeued.queues other

theorem ClientInv.requeued {wants after : CliPtr → List TubeName} {jsm next : JSM}
    {queues : TubeName → List CliPtr} (inv : ClientInv wants jsm)
    (requeued : Requeued queues jsm next)
    (queued : ∀ tubeName cli, cli ∈ queues tubeName ↔
      cli ∈ jsm.clients.entries ∧ tubeName ∈ after cli) :
    ClientInv after next := by
  obtain ⟨clients, clientHeap, clientAt, nextClient, entries, _⟩ := requeued
  refine ⟨?_, ?_, ?_, ?_, ?_, ?_⟩
  · rw [clients, nextClient]
    exact inv.allocated
  · rw [clients, clientHeap]
    exact inv.onHeap
  · rw [JSM.clientHeapState, clientHeap, clientAt]
    exact inv.tracked
  · rw [clients, clientHeap, clientAt]
    exact inv.offHeap
  · rw [clientAt, clientHeap]
    exact inv.ordered
  · intro tubeName cli
    rw [entries, clients]
    exact queued tubeName cli

/-! ## Leaving -/

theorem leaveWaitQ_of_mem {jsm : JSM} {cli : CliPtr} {tubeName : TubeName}
    (member : cli ∈ (jsm.waitingAt tubeName).entries) :
    ∃ queue, leaveWaitQ cli tubeName jsm = .ok () (jsm.setWaiting tubeName queue) ∧
      queue.entries = (jsm.waitingAt tubeName).entries.filter (· ≠ cli) := by
  have present := jsm.hasTube_of_waiting tubeName member
  obtain ⟨tube, found⟩ := Option.isSome_iff_exists.mp present
  have waiting : jsm.waitingAt tubeName = tube.waiting := by
    simp [JSM.waitingAt, found]
  rw [waiting] at member ⊢
  obtain ⟨queue, removes, entries⟩ := tube.waiting.remove_of_mem member
  refine ⟨queue, ?_, entries⟩
  simp only [leaveWaitQ, found, removes]

/-- The client has stopped waiting. -/
structure Unreserved (cli : CliPtr) (before after : JSM) : Prop where
  clients : after.clients = before.clients
  clientHeap : after.clientHeap = before.clientHeap
  clientAt : ∀ other, after.clientAt other =
    if other = cli then
      { before.clientAt cli with isWaitingForResv := false, resvDeadlineAt := maxTime }
    else before.clientAt other
  queues : ∀ tubeName, (after.waitingAt tubeName).entries =
    (before.waitingAt tubeName).entries.filter (· ≠ cli)
  frame : ClientFrame before after

theorem Unreserved.waitsKept {cli : CliPtr} {before after : JSM}
    (unreserved : Unreserved cli before after) : WaitsKept (· = cli) before after where
  waits other different := by rw [unreserved.clientAt, if_neg different]
  registered other member _ := unreserved.clients ▸ member

/-- Leaving the queues of a list of tubes, the client being in all of them. -/
theorem ends_leaveWaitQs (jsm : JSM) {cli : CliPtr} {tubeNames : List TubeName}
    (nodup : tubeNames.Nodup)
    (inAll : ∀ tubeName ∈ tubeNames, cli ∈ (jsm.waitingAt tubeName).entries) :
    (forEach (leaveWaitQ cli) tubeNames jsm).Ends
      (fun _ after => Requeued (fun tubeName =>
        if tubeName ∈ tubeNames then (jsm.waitingAt tubeName).entries.filter (· ≠ cli)
        else (jsm.waitingAt tubeName).entries) jsm after)
      (fun _ _ => False) False := by
  refine Prog.ends_foldlM tubeNames (fun done _ after => Requeued (fun tubeName =>
    if tubeName ∈ done then (jsm.waitingAt tubeName).entries.filter (· ≠ cli)
    else (jsm.waitingAt tubeName).entries) jsm after) ?_ (by simpa using Requeued.refl jsm)
  rintro done tubeName rest _ middle rfl requeued
  have fresh : tubeName ∉ done := fun earlier =>
    (List.nodup_append.mp nodup).2.2 _ earlier _ List.mem_cons_self rfl
  have queue := requeued.queues tubeName
  rw [if_neg fresh] at queue
  have member : cli ∈ (middle.waitingAt tubeName).entries := by
    rw [queue]
    exact inAll tubeName (by simp)
  obtain ⟨left, leaves, entries⟩ := leaveWaitQ_of_mem member
  rw [leaves]
  have next := requeued.setWaiting (middle.hasTube_of_waiting tubeName member) left
  refine ⟨next.clients, next.clientHeap, next.clientAt, next.nextClient, fun other => ?_,
    next.frame⟩
  rw [next.queues, Function.update_apply]
  by_cases same : other = tubeName
  · subst other
    simp [entries, queue]
  · simp [same]

theorem ends_leaveQueues {jsm : JSM} {cli : CliPtr}
    (inQueue : ∀ tubeName, cli ∈ (jsm.waitingAt tubeName).entries ↔
      tubeName ∈ (jsm.clientAt cli).watchedTubes)
    (nodup : (jsm.clientAt cli).watchedTubes.Nodup) :
    (unReserve cli jsm).Ends
      (fun _ after => Unreserved cli jsm after ∧ after.nextClient = jsm.nextClient)
      (fun _ _ => False) False := by
  let change : ClientResvEntry → ClientResvEntry := fun record =>
    { record with isWaitingForResv := false, resvDeadlineAt := maxTime }
  have watched : ((jsm.updateClient cli change).clientAt cli).watchedTubes =
      (jsm.clientAt cli).watchedTubes := by
    simp [JSM.updateClient, change]
  unfold unReserve
  rw [Prog.bind_apply, updateClient, Prog.modify_apply, Outcome.ok_andThen, readClient_bind]
  change ((forEach (leaveWaitQ cli) ((jsm.updateClient cli change).clientAt cli).watchedTubes)
    (jsm.updateClient cli change)).Ends _ _ _
  rw [watched]
  refine (ends_leaveWaitQs (jsm.updateClient cli change) nodup
    fun tubeName member => (inQueue tubeName).mpr member).mono ?_ (fun _ _ holds => holds)
    (fun holds => holds)
  rintro _ after requeued
  refine ⟨⟨requeued.clients, requeued.clientHeap, fun other => by rw [requeued.clientAt]; rfl,
    fun tubeName => ?_, (ClientFrame.updateClient jsm cli change).trans requeued.frame⟩,
    requeued.nextClient⟩
  rw [requeued.queues]
  split
  next => rfl
  next outside =>
    rw [← inQueue] at outside
    symm
    refine List.filter_eq_self.mpr fun other member => ?_
    rw [decide_eq_true_eq]
    rintro rfl
    exact outside member

theorem ends_unReserve {wants : CliPtr → List TubeName} {jsm : JSM} {cli : CliPtr}
    (inv : ClientInv wants jsm) (registered : cli ∈ jsm.clients.entries)
    (waits : wants cli = (jsm.clientAt cli).watchedTubes)
    (nodup : (jsm.clientAt cli).watchedTubes.Nodup) :
    (unReserve cli jsm).Ends
      (fun _ after => ClientInv (Function.update wants cli []) after ∧ Unreserved cli jsm after)
      (fun _ _ => False) False := by
  have inQueue : ∀ tubeName, cli ∈ (jsm.waitingAt tubeName).entries ↔
      tubeName ∈ (jsm.clientAt cli).watchedTubes := by
    intro tubeName
    rw [inv.queued, waits]
    exact and_iff_right registered
  refine (ends_leaveQueues inQueue nodup).mono ?_ (fun _ _ => id) id
  rintro _ after ⟨unreserved, nextClient⟩
  have kept : ∀ other, (after.clientAt other).heapIndex = (jsm.clientAt other).heapIndex ∧
      (after.clientAt other).tickAt = (jsm.clientAt other).tickAt := by
    intro other
    rw [unreserved.clientAt]
    split
    next same => rw [same]; exact ⟨rfl, rfl⟩
    next => exact ⟨rfl, rfl⟩
  refine ⟨inv.of_write unreserved.clientHeap (fun other member => ?_) (fun other member => ?_)
    fun tubeName other => ?_, unreserved⟩
  · rw [unreserved.clients]
    exact ⟨(kept other).1, (kept other).2, inv.onHeap other member⟩
  · rw [unreserved.clients] at member
    rw [nextClient, (kept other).1]
    exact ⟨inv.allocated other member, inv.offHeap other member⟩
  · rw [unreserved.queues, List.mem_filter, decide_eq_true_eq, inv.queued, unreserved.clients,
      Function.update_apply]
    by_cases same : other = cli <;> simp [same]

/-! ## Entering -/

theorem joinWaitQ_apply (jsm : JSM) (cli : CliPtr) (tubeName : TubeName) :
    (∀ other ∈ (jsm.waitingAt tubeName).entries, other.cliID ≠ cli.cliID) ∧
      (∃ queue, joinWaitQ cli tubeName jsm =
          .ok () ((jsm.createTube tubeName).setWaiting tubeName queue) ∧
        queue.entries = (jsm.waitingAt tubeName).entries ++ [cli]) ∨
    (∃ other ∈ (jsm.waitingAt tubeName).entries, other.cliID = cli.cliID) ∧
      joinWaitQ cli tubeName jsm = .panic .enqueueToWaitQ := by
  have sameQueue := jsm.waitingAt_createTube tubeName tubeName
  by_cases present : ∃ other ∈ (jsm.waitingAt tubeName).entries, other.cliID = cli.cliID
  · right
    refine ⟨present, ?_⟩
    obtain ⟨other, member, sameId⟩ := present
    have refused := (jsm.waitingAt tubeName).enqueue_of_present member sameId
    have fails : enqueueToWaitQ tubeName cli jsm = .err .entryExists (jsm.createTube tubeName) := by
      simp [enqueueToWaitQ, getByName, Prog.bind_apply, sameQueue, refused]
    unfold joinWaitQ
    rw [Prog.bind_apply, Prog.attempt_of_err fails]
    rfl
  · left
    have absent : ∀ other ∈ (jsm.waitingAt tubeName).entries, other.cliID ≠ cli.cliID :=
      fun other member sameId => present ⟨other, member, sameId⟩
    obtain ⟨queue, accepted, entries⟩ := (jsm.waitingAt tubeName).enqueue_of_absent cli absent
    have joins : enqueueToWaitQ tubeName cli jsm =
        .ok () ((jsm.createTube tubeName).setWaiting tubeName queue) := by
      simp [enqueueToWaitQ, getByName, Prog.bind_apply, sameQueue, accepted]
    refine ⟨absent, queue, ?_, entries⟩
    unfold joinWaitQ
    rw [Prog.bind_apply, Prog.attempt_of_ok joins]
    rfl

/-- The wait queues after a client has entered those of its tubes. -/
def JSM.queuesWith (jsm : JSM) (cli : CliPtr) (watchedTubes : List TubeName)
    (tubeName : TubeName) : List CliPtr :=
  if tubeName ∈ watchedTubes then (jsm.waitingAt tubeName).entries ++ [cli]
  else (jsm.waitingAt tubeName).entries

theorem ends_joinWaitQs_any (jsm : JSM) (cli : CliPtr) (tubeNames : List TubeName) :
    (forEach (joinWaitQ cli) tubeNames jsm).Ends
      (fun _ after => tubeNames.Nodup ∧ Requeued (jsm.queuesWith cli tubeNames) jsm after)
      (fun _ _ => False)
      (tubeNames.Nodup →
        ∃ tubeName, ∃ other ∈ (jsm.waitingAt tubeName).entries, other.cliID = cli.cliID) := by
  have start : Requeued (jsm.queuesWith cli []) jsm jsm := by
    unfold JSM.queuesWith
    simpa using Requeued.refl jsm
  refine Prog.ends_foldlM tubeNames (fun done _ after => done.Nodup ∧
    Requeued (jsm.queuesWith cli done) jsm after) ?_ ⟨List.nodup_nil, start⟩
  rintro done tubeName rest _ middle rfl ⟨doneNodup, requeued⟩
  have queue := requeued.queues tubeName
  unfold JSM.queuesWith at queue
  rcases joinWaitQ_apply middle cli tubeName with
    ⟨notThere, joined, joins, entries⟩ | ⟨present, panics⟩
  · rw [joins]
    have created : (middle.createTube tubeName).hasTube tubeName = true := by
      simp [JSM.hasTube_createTube]
    have next := (requeued.createTube tubeName).setWaiting created joined
    -- a tube that is listed twice refuses the client
    have fresh : tubeName ∉ done := by
      intro again
      rw [if_pos again] at queue
      exact notThere cli (by simp [queue]) rfl
    rw [if_neg fresh] at queue
    refine ⟨?_, next.clients, next.clientHeap, next.clientAt, next.nextClient, fun other => ?_,
      next.frame⟩
    · refine List.nodup_append.mpr ⟨doneNodup, List.nodup_singleton _, ?_⟩
      rintro first earlier second later rfl
      rw [List.mem_singleton.mp later] at earlier
      exact fresh earlier
    · rw [next.queues, Function.update_apply]
      by_cases same : other = tubeName
      · subst other
        simp [JSM.queuesWith, entries, queue]
      · simp [JSM.queuesWith, same]
  · rw [panics]
    intro nodup
    have fresh : tubeName ∉ done := fun earlier =>
      (List.nodup_append.mp nodup).2.2 _ earlier _ List.mem_cons_self rfl
    rw [queue, if_neg fresh] at present
    exact ⟨tubeName, present⟩

/-- Entering the queues of a list of tubes, the client being in none of them. -/
theorem ends_joinWaitQs {jsm : JSM} {cli : CliPtr} (tubeNames : List TubeName)
    (absent : ∀ tubeName, ∀ other ∈ (jsm.waitingAt tubeName).entries, other.cliID ≠ cli.cliID) :
    (forEach (joinWaitQ cli) tubeNames jsm).Ends
      (fun _ after => tubeNames.Nodup ∧ Requeued (jsm.queuesWith cli tubeNames) jsm after)
      (fun _ _ => False) (¬ tubeNames.Nodup) := by
  refine (ends_joinWaitQs_any jsm cli tubeNames).mono (fun _ _ => id) (fun _ _ => id)
    fun twice nodup => ?_
  obtain ⟨tubeName, other, member, sameId⟩ := twice nodup
  exact absent tubeName other member sameId

/-- The entry of a client that has just asked for a reservation. -/
def askedEntry (jsm : JSM) (cli : CliPtr) (reqID : ReqID) (watchedTubes : List TubeName)
    (resvDeadlineAt : Int64) : ClientResvEntry where
  watchedTubes := watchedTubes
  resvDeadlineAt := resvDeadlineAt
  isWaitingForResv := true
  tickAt := if cli ∈ jsm.clients.entries then (jsm.clientAt cli).tickAt else 0
  reqID := reqID
  heapIndex := 0

/-- A client has asked for a reservation; the wait queues are as given. -/
structure Asked (cli : CliPtr) (reqID : ReqID) (watchedTubes : List TubeName)
    (resvDeadlineAt : Int64) (queues : TubeName → List CliPtr) (before after : JSM) : Prop where
  idle : ∀ other ∈ before.clients.entries, other.cliID = cli.cliID →
    (before.clientAt other).isWaitingForResv = false
  entries : after.clients.entries =
    if cli ∈ before.clients.entries then before.clients.entries
    else before.clients.entries ++ [cli]
  content : ∀ other, (after.clientAt other).content =
    if other = cli then askedEntry before cli reqID watchedTubes resvDeadlineAt
    else (before.clientAt other).content
  clientHeap : after.clientHeap = before.clientHeap
  queues : ∀ tubeName, (after.waitingAt tubeName).entries = queues tubeName
  frame : ClientFrame before after

theorem ends_registerClient {wants : CliPtr → List TubeName} {jsm : JSM}
    (inv : ClientInv wants jsm)
    (resting : ∀ cli ∈ jsm.clients.entries, (jsm.clientAt cli).isWaitingForResv = false →
      wants cli = [])
    (clientId : ClientID) (reqID : ReqID) (watchedTubes : List TubeName) (resvDeadlineAt : Int64) :
    (registerClient clientId reqID watchedTubes resvDeadlineAt jsm).Ends
      (fun cli after => cli.cliID = clientId ∧
        Asked cli reqID watchedTubes resvDeadlineAt
          (fun tubeName => (jsm.waitingAt tubeName).entries) jsm after ∧
        ClientInv (Function.update wants cli []) after)
      (fun error after => after = jsm ∧ error = .clientIsWaitingForReservation ∧
        ∃ cli ∈ jsm.clients.entries, cli.cliID = clientId ∧
          (jsm.clientAt cli).isWaitingForResv = true)
      False := by
  have registers := registers_registerClient clientId reqID watchedTubes resvDeadlineAt jsm
  generalize registerClient clientId reqID watchedTubes resvDeadlineAt jsm = outcome at registers ⊢
  cases registers with
  | @new clients absent entries =>
      have fresh : (⟨clientId, jsm.nextClient⟩ : CliPtr) ∉ jsm.clients.entries := by
        intro member
        have := inv.allocated _ member
        simp at this
      have notOnHeap : (⟨clientId, jsm.nextClient⟩ : CliPtr) ∉ jsm.clientHeap :=
        fun member => fresh (inv.onHeap _ member)
      refine ⟨rfl, ⟨?_, ?_, fun other => ?_, rfl, fun _ => rfl,
        ⟨rfl, rfl, rfl, fun _ present => present⟩⟩, ?_⟩
      · exact fun other member sameId => absurd sameId (absent other member)
      · rw [if_neg fresh]
        exact entries
      · by_cases same : other = ⟨clientId, jsm.nextClient⟩
        · simp [same, askedEntry, fresh, ClientResvEntry.content]
        · simp [same]
      · refine inv.of_write rfl (fun other member => ?_) (fun other member => ?_)
          fun tubeName other => ?_
        · have different : other ≠ ⟨clientId, jsm.nextClient⟩ := fun same =>
            notOnHeap (same ▸ member)
          refine ⟨by simp [different], by simp [different], ?_⟩
          change other ∈ clients.entries
          rw [entries]
          exact List.mem_append_left _ (inv.onHeap other member)
        · have member : other ∈ clients.entries := member
          rw [entries, List.mem_append, List.mem_singleton] at member
          rcases member with old | rfl
          · have different : other ≠ ⟨clientId, jsm.nextClient⟩ := fun same => fresh (same ▸ old)
            refine ⟨Nat.lt_succ_of_lt (inv.allocated other old), fun outside => ?_⟩
            simp only [if_neg different]
            exact inv.offHeap other old outside
          · exact ⟨Nat.lt_succ_self _, fun _ => by simp⟩
        · change other ∈ (jsm.waitingAt tubeName).entries ↔ other ∈ clients.entries ∧ _
          rw [inv.queued, entries, List.mem_append, List.mem_singleton, Function.update_apply]
          by_cases same : other = ⟨clientId, jsm.nextClient⟩
          · simp [same, fresh]
          · simp [same]
  | @known cli registered sameId idle =>
      refine ⟨sameId, ⟨fun other member same => ?_, by rw [if_pos registered]; rfl,
        fun other => ?_, rfl, fun _ => rfl, .updateClient jsm cli _⟩, ?_⟩
      · rw [jsm.clients.eq_of_cliID_eq member registered same]
        exact idle
      · simp only [JSM.updateClient]
        split
        next => simp [askedEntry, registered, ClientResvEntry.content]
        next => rfl
      · have unchanged : Function.update wants cli [] = wants :=
          Function.update_eq_self_iff.mpr (resting cli registered idle).symm
        rw [unchanged]
        exact inv.updateClient cli fun _ => ⟨rfl, rfl⟩
  | @refused cli registered sameId waiting => exact ⟨rfl, rfl, cli, registered, sameId, waiting⟩

end Coolbeans
