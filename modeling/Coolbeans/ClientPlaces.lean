import Coolbeans.ClientInvariant

/-!
# Places on the client heap

The position of an entry says where it is on the client heap, or that it is not there.  A new
clock moves one entry, onto the heap, on it or off it; it changes no request and no wait queue.
Nothing is needed for this of the other containers of clients, nor of the jobs.
-/

namespace Coolbeans

open FiniteMap PositionHeap StatefulProgram

/-- The entry is on the client heap, or its position says that it is not. -/
def JSM.Placed (jsm : JSM) (cli : CliPtr) : Prop :=
  cli ∈ jsm.clientHeap ∨ (jsm.clientAt cli).heapIndex < 0

/-- What an entry says about the request of its client. -/
def ClientResvEntry.request (record : ClientResvEntry) : ClientResvEntry :=
  { record with tickAt := 0, heapIndex := 0 }

theorem ClientResvEntry.fields_of_request {first second : ClientResvEntry}
    (same : first.request = second.request) :
    first.watchedTubes = second.watchedTubes ∧ first.resvDeadlineAt = second.resvDeadlineAt ∧
      first.isWaitingForResv = second.isWaitingForResv ∧ first.reqID = second.reqID := by
  simp only [request, ClientResvEntry.mk.injEq] at same
  exact ⟨same.1, same.2.1, same.2.2.1, same.2.2.2.2.1⟩

theorem clientStore_request (memory : CliPtr → ClientResvEntry) (item : CliPtr) (position : Int)
    (cli : CliPtr) : (clientStore.set memory item position cli).request = (memory cli).request := by
  simp only [clientStore]
  split
  next same => rw [same]; rfl
  next => rfl

/-- The client heap has changed, and at most the one client is new on it; no request and no
wait queue has changed. -/
structure Repositioned (cli : CliPtr) (before after : JSM) : Prop where
  tracked : Tracked clientStore after.clientHeapState
  placed : ∀ other, before.Placed other → after.Placed other
  request : ∀ other, (after.clientAt other).request = (before.clientAt other).request
  heap : ∀ other ∈ after.clientHeap, other = cli ∨ other ∈ before.clientHeap
  registered : ∀ other ∈ after.clients.entries, other ∈ before.clients.entries
  nextClient : after.nextClient = before.nextClient
  queues : after.waitingAt = before.waitingAt
  frame : ClientFrame before after

namespace Repositioned

variable {cli : CliPtr} {jsm : JSM}

theorem trans {first second third : JSM} (before : Repositioned cli first second)
    (after : Repositioned cli second third) : Repositioned cli first third where
  tracked := after.tracked
  placed other placed := after.placed other (before.placed other placed)
  request other := (after.request other).trans (before.request other)
  heap other member := (after.heap other member).elim Or.inl (before.heap other)
  registered other member := before.registered other (after.registered other member)
  nextClient := after.nextClient.trans before.nextClient
  queues := after.queues.trans before.queues
  frame := before.frame.trans after.frame

theorem updateTickAt (tracked : Tracked clientStore jsm.clientHeapState) (tickAt : Int64) :
    Repositioned cli jsm
      (jsm.updateClient cli fun record => { record with tickAt := tickAt }) := by
  have ticked := ticked_updateClient jsm cli tickAt
  refine ⟨ticked.tracked rfl tracked, fun other placed => ?_, fun other => ?_,
    fun other member => Or.inr member, fun _ member => member, rfl, rfl, .updateClient jsm cli _⟩
  · exact placed.imp id fun off => (ticked.position other).trans_lt off
  · simp only [JSM.updateClient]
    split
    next same => rw [same]; rfl
    next => rfl

theorem putClientHeap {heap : HeapState CliPtr (CliPtr → ClientResvEntry)}
    (tracked : Tracked clientStore heap)
    (writes : (fun other => (heap.mem other).request) = fun other => (jsm.clientAt other).request)
    (placed : ∀ other, jsm.Placed other → other ∈ heap.items ∨ (heap.mem other).heapIndex < 0)
    (members : ∀ other ∈ heap.items, other = cli ∨ other ∈ jsm.clientHeap) :
    Repositioned cli jsm (jsm.putClientHeap heap) :=
  ⟨tracked, placed, congrFun writes, members, fun _ member => member, rfl, rfl,
    .putClientHeap jsm heap⟩

theorem push (tracked : Tracked clientStore jsm.clientHeapState)
    (absent : cli ∉ jsm.clientHeap) : Repositioned cli jsm (jsm.clientHeapEnqueue cli) := by
  have inserted := inserted_push clientStore (clientResvLess jsm.clientAt) cli jsm.clientHeapState
  refine putClientHeap (inserted.tracked tracked absent)
    (inserted.frame (fun memory other => (memory other).request) fun memory item position =>
      funext fun other => clientStore_request memory item position other)
    (fun other placed => ?_) fun other member => ?_
  · by_cases inside : other = cli ∨ other ∈ jsm.clientHeap
    · exact Or.inl (inserted.perm.mem_iff.mpr (List.mem_cons.mpr inside))
    · obtain ⟨different, outside⟩ := not_or.mp inside
      right
      exact (inserted.outside other outside different).trans_lt (placed.resolve_left outside)
  · exact List.mem_cons.mp (inserted.perm.mem_iff.mp member)

theorem fix (tracked : Tracked clientStore jsm.clientHeapState) (i : Nat) :
    Repositioned cli jsm (jsm.putClientHeap
      (PositionHeap.fix clientStore (clientResvLess jsm.clientAt) i jsm.clientHeapState)) := by
  have rearranged := rearranged_fix clientStore (clientResvLess jsm.clientAt) i
    jsm.clientHeapState
  refine putClientHeap (rearranged.tracked tracked)
    (rearranged.frame (fun memory other => (memory other).request) fun memory item position =>
      funext fun other => clientStore_request memory item position other)
    (fun other placed => ?_) fun other member => Or.inr (rearranged.mem_iff.mp member)
  by_cases inside : other ∈ jsm.clientHeap
  · exact Or.inl (rearranged.mem_iff.mpr inside)
  · right
    exact (rearranged.outside other inside).trans_lt (placed.resolve_left inside)

theorem of_removed {found : CliPtr} {heap : HeapState CliPtr (CliPtr → ClientResvEntry)}
    (removed : Removed clientStore found jsm.clientHeapState heap) :
    Repositioned cli jsm (jsm.putClientHeap heap) := by
  have members : ∀ other, other = found ∨ other ∈ heap.items ↔ other ∈ jsm.clientHeap :=
    fun other => List.mem_cons.symm.trans removed.perm.mem_iff
  refine putClientHeap removed.tracked
    (removed.frame (fun memory other => (memory other).request) fun memory item position =>
      funext fun other => clientStore_request memory item position other)
    (fun other placed => ?_) fun other member => Or.inr ((members other).mp (Or.inr member))
  by_cases inside : other ∈ jsm.clientHeap
  · rcases (members other).mpr inside with rfl | stays
    · have out : (heap.mem other).heapIndex = -1 := removed.out
      exact Or.inr (by omega)
    · exact Or.inl stays
  · right
    exact (removed.outside other inside).trans_lt (placed.resolve_left inside)

theorem waitsKept {chosen : CliPtr → Prop} {after : JSM} (moved : Repositioned cli jsm after) :
    WaitsKept chosen jsm after where
  waits other _ := (ClientResvEntry.fields_of_request (moved.request other)).2.2.1
  registered other member _ := moved.registered other member

theorem setClients {clients : ClientResvQueue} (tracked : Tracked clientStore jsm.clientHeapState)
    (subset : ∀ other ∈ clients.entries, other ∈ jsm.clients.entries) :
    Repositioned cli jsm { jsm with clients := clients } :=
  ⟨tracked, fun _ placed => placed, fun _ => rfl, fun _ member => Or.inr member, subset, rfl, rfl,
    .setClients jsm clients⟩

end Repositioned

theorem Tracked.heapIndex {jsm : JSM} {cli : CliPtr}
    (tracked : Tracked clientStore jsm.clientHeapState) (member : cli ∈ jsm.clientHeap) :
    ∃ i : Nat, (jsm.clientAt cli).heapIndex = i ∧ jsm.clientHeap[i]? = some cli := by
  obtain ⟨i, occupied⟩ := List.getElem?_of_mem member
  exact ⟨i, tracked i cli occupied, occupied⟩

section Schedule

variable {jsm : JSM} {cli : CliPtr}

theorem repositions_scheduleClient (tracked : Tracked clientStore jsm.clientHeapState)
    (tickAt : Int64) :
    (scheduleClient cli tickAt jsm).Ends (fun _ after => Repositioned cli jsm after)
      (fun _ _ => False) (¬ jsm.Placed cli) := by
  have ticked : Repositioned cli jsm _ := .updateTickAt tracked tickAt
  have position := (ticked_updateClient jsm cli tickAt).position cli
  unfold scheduleClient
  rw [readClient_bind]
  split
  next off =>
    have absent : cli ∉ jsm.clientHeap := by
      intro member
      obtain ⟨i, isIndex, _⟩ := Tracked.heapIndex tracked member
      omega
    exact ticked.trans (.push ticked.tracked absent)
  next on =>
    rw [Prog.bind_apply, updateClient, Prog.modify_apply, Outcome.ok_andThen, clientHeapFix]
    split
    next outOfRange =>
      rintro (member | off)
      · obtain ⟨i, isIndex, occupied⟩ := Tracked.heapIndex tracked member
        obtain ⟨bound, _⟩ := List.getElem?_eq_some_iff.mp occupied
        rw [position, isIndex] at outOfRange
        have := outOfRange.2
        change (jsm.clientHeap.length : Int) ≤ i at this
        omega
      · exact on off
    next => exact ticked.trans (.fix ticked.tracked _)

theorem repositions_clientHeapRemove (tracked : Tracked clientStore jsm.clientHeapState)
    (on : 0 ≤ (jsm.clientAt cli).heapIndex) :
    (clientHeapRemove cli jsm).Ends (fun _ after => Repositioned cli jsm after)
      (fun _ _ => ¬ jsm.Placed cli) (¬ jsm.Placed cli) := by
  have place : jsm.Placed cli → ∃ i : Nat, (jsm.clientAt cli).heapIndex = i ∧
      jsm.clientHeap[i]? = some cli ∧ i < jsm.clientHeap.length := by
    rintro (member | off)
    · obtain ⟨i, isIndex, occupied⟩ := Tracked.heapIndex tracked member
      exact ⟨i, isIndex, occupied, (List.getElem?_eq_some_iff.mp occupied).1⟩
    · omega
  unfold clientHeapRemove
  dsimp only
  split
  next tooFar =>
    intro placed
    obtain ⟨i, isIndex, _, bound⟩ := place placed
    omega
  split
  next => omega
  split
  next nobody =>
    intro placed
    obtain ⟨i, isIndex, occupied, _⟩ := place placed
    rw [isIndex, Int.toNat_natCast, occupied] at nobody
    cases nobody
  next found occupied =>
    split
    next different =>
      intro placed
      obtain ⟨i, isIndex, isHere, _⟩ := place placed
      rw [isIndex, Int.toNat_natCast, isHere] at occupied
      cases occupied
      exact different rfl
    next => exact .of_removed (removed_remove clientStore _ tracked occupied)

theorem repositions_removeClient (tracked : Tracked clientStore jsm.clientHeapState) :
    (removeClient cli jsm).Ends (fun _ after => Repositioned cli jsm after)
      (fun error after => error = .entryMissing ∧ after = jsm) False := by
  unfold removeClient
  cases removes : jsm.clients.remove cli with
  | ok clients => exact .setClients tracked (jsm.clients.subset_of_remove removes)
  | error error => exact ⟨jsm.clients.eq_entryMissing_of_remove removes, rfl⟩

theorem repositions_unscheduleClient (tracked : Tracked clientStore jsm.clientHeapState)
    (tickAt : Int64) :
    (unscheduleClient cli tickAt jsm).Ends (fun _ after => Repositioned cli jsm after)
      (fun _ _ => False) (¬ jsm.Placed cli) := by
  unfold unscheduleClient
  rw [readClient_bind]
  split
  next on =>
    refine Prog.ends_attempt_bind (repositions_clientHeapRemove tracked on) ?_
    intro _ middle off
    refine Prog.ends_attempt_bind ((repositions_removeClient off.tracked).mono
      (fun _ _ removed => removed) ?_ False.elim) ?_
    · rintro _ after ⟨rfl, rfl⟩
      exact off.trans (.updateTickAt off.tracked tickAt)
    · intro _ after removed
      exact (off.trans removed).trans (.updateTickAt removed.tracked tickAt)
  next => exact .updateTickAt tracked tickAt

theorem repositions_updateClientTickAt (tracked : Tracked clientStore jsm.clientHeapState) :
    (updateClientTickAt cli jsm).Ends (fun _ after => Repositioned cli jsm after)
      (fun _ _ => False) (¬ jsm.Placed cli) := by
  rw [updateClientTickAt_eq]
  split
  · exact repositions_scheduleClient tracked (jsm.tickAtFor cli)
  · exact repositions_unscheduleClient tracked (jsm.tickAtFor cli)

end Schedule

end Coolbeans
