import Coolbeans.ClientPlaces
import Coolbeans.JobRuns
import Coolbeans.WaitQueueSteps

/-!
# Clients in line, in every run

A client whose request never ends is taken off the client heap and out of the client queue
while it still stands in wait queues, so in some runs the client containers do not agree with
each other.  What holds in every run is weaker: an entry that waits stands in the wait queues
of just its tubes, and the position of an entry says where it is on the client heap.  This is
all that the matching of clients with jobs rests on.  Every operation keeps it, and lets at most
one client join each wait queue, behind all the others.
-/

namespace Coolbeans

open FiniteMap PositionHeap StatefulProgram

/-! ## The invariant -/

/-- Waiting clients stand in the queues of just their tubes, and every entry in use is known
to the memory and placed. -/
structure LinesOk (jsm : JSM) : Prop where
  tracked : Tracked clientStore jsm.clientHeapState
  placed : ∀ cli, cli ∈ jsm.clients.entries ∨ (jsm.clientAt cli).isWaitingForResv = true →
    jsm.Placed cli
  allocated : ∀ cli, cli ∈ jsm.clients.entries ∨ (jsm.clientAt cli).isWaitingForResv = true ∨
    cli ∈ jsm.clientHeap → cli.addr < jsm.nextClient
  queued : ∀ tubeName cli, cli ∈ (jsm.waitingAt tubeName).entries ↔ tubeName ∈ jsm.wanted cli
  nodup : ∀ cli, (jsm.clientAt cli).isWaitingForResv = true →
    (jsm.clientAt cli).watchedTubes.Nodup

theorem linesOk_newJSM : LinesOk newJSM := by
  refine ⟨fun i cli occupied => ?_, fun cli inUse => ?_, fun cli inUse => ?_,
    fun tubeName cli => ?_, fun cli waiting => ?_⟩
  · cases occupied
  · rcases inUse with registered | waiting
    · cases registered
    · cases waiting
  · rcases inUse with registered | waiting | onHeap
    · cases registered
    · cases waiting
    · cases onHeap
  · exact iff_of_false List.not_mem_nil List.not_mem_nil
  · cases waiting

/-- Clients may have left a wait queue, and one may have joined it, behind all others. -/
def JoinedBehind (before after : List CliPtr) : Prop :=
  ∃ newcomer : Option CliPtr, (∀ cli ∈ newcomer, cli ∉ before) ∧
    after.Sublist (before ++ newcomer.toList)

theorem JoinedBehind.of_sublist {before after : List CliPtr} (sublist : after.Sublist before) :
    JoinedBehind before after :=
  ⟨none, by simp, by simpa using sublist⟩

theorem JoinedBehind.joined {before : List CliPtr} {cli : CliPtr} (fresh : cli ∉ before) :
    JoinedBehind before (before ++ [cli]) :=
  ⟨some cli, by simpa using fresh, List.Sublist.refl _⟩

theorem JoinedBehind.leaves {before middle after : List CliPtr}
    (joined : JoinedBehind before middle) (sublist : after.Sublist middle) :
    JoinedBehind before after := by
  obtain ⟨newcomer, fresh, inOrder⟩ := joined
  exact ⟨newcomer, fresh, sublist.trans inOrder⟩

section Unreserved

variable {cli : CliPtr} {jsm after : JSM}

theorem Unreserved.heapIndex (unreserved : Unreserved cli jsm after) (other : CliPtr) :
    (after.clientAt other).heapIndex = (jsm.clientAt other).heapIndex := by
  rw [unreserved.clientAt]
  split
  next same => rw [same]
  next => rfl

theorem Unreserved.placed (unreserved : Unreserved cli jsm after) {other : CliPtr}
    (placed : jsm.Placed other) : after.Placed other := by
  rw [JSM.Placed, unreserved.clientHeap, unreserved.heapIndex]
  exact placed

theorem Unreserved.tracked (unreserved : Unreserved cli jsm after)
    (tracked : Tracked clientStore jsm.clientHeapState) :
    Tracked clientStore after.clientHeapState := by
  intro i other occupied
  have occupied : after.clientHeap[i]? = some other := occupied
  rw [unreserved.clientHeap] at occupied
  exact (unreserved.heapIndex other).trans (tracked i other occupied)

end Unreserved

namespace LinesOk

variable {jsm after : JSM} {cli : CliPtr}

theorem waits (lines : LinesOk jsm) {tubeName : TubeName}
    (queued : cli ∈ (jsm.waitingAt tubeName).entries) :
    (jsm.clientAt cli).isWaitingForResv = true ∧
      tubeName ∈ (jsm.clientAt cli).watchedTubes := by
  have wanted := (lines.queued tubeName cli).mp queued
  unfold JSM.wanted at wanted
  split at wanted
  next waiting => exact ⟨waiting, wanted⟩
  next => cases wanted

theorem of_clientView (lines : LinesOk jsm) (same : after.clientView = jsm.clientView) :
    LinesOk after := by
  obtain ⟨clients, clientHeap, clientAt, nextClient, queues⟩ := JSM.fields_of_clientView same
  have placed : after.Placed = jsm.Placed := by
    funext cli
    simp only [JSM.Placed, clientHeap, clientAt]
  refine ⟨?_, ?_, ?_, fun tubeName cli => ?_, ?_⟩
  · rw [JSM.clientHeapState, clientHeap, clientAt]
    exact lines.tracked
  · rw [clients, clientAt, placed]
    exact lines.placed
  · rw [clients, clientAt, clientHeap, nextClient]
    exact lines.allocated
  · rw [queues, lines.queued, JSM.wanted, JSM.wanted, clientAt]
  · rw [clientAt]
    exact lines.nodup

theorem repositioned (lines : LinesOk jsm) (known : cli.addr < jsm.nextClient)
    (moved : Repositioned cli jsm after) : LinesOk after := by
  have fields := fun other => ClientResvEntry.fields_of_request (moved.request other)
  refine ⟨moved.tracked, fun other inUse => ?_, fun other inUse => ?_, fun tubeName other => ?_,
    fun other waiting => ?_⟩
  · rw [(fields other).2.2.1] at inUse
    exact moved.placed other (lines.placed other (inUse.imp_left (moved.registered other)))
  · rw [moved.nextClient]
    rw [(fields other).2.2.1] at inUse
    rcases inUse with registered | waiting | onHeap
    · exact lines.allocated other (Or.inl (moved.registered other registered))
    · exact lines.allocated other (Or.inr (Or.inl waiting))
    · rcases moved.heap other onHeap with rfl | before
      · exact known
      · exact lines.allocated other (Or.inr (Or.inr before))
  · rw [moved.queues, lines.queued, JSM.wanted, JSM.wanted, (fields other).1, (fields other).2.2.1]
  · rw [(fields other).2.2.1] at waiting
    rw [(fields other).1]
    exact lines.nodup other waiting

theorem ends_unReserve (lines : LinesOk jsm)
    (waiting : (jsm.clientAt cli).isWaitingForResv = true) :
    (unReserve cli jsm).Ends
      (fun _ after => LinesOk after ∧ Unreserved cli jsm after ∧
        after.nextClient = jsm.nextClient)
      (fun _ _ => False) False := by
  have inQueue : ∀ tubeName, cli ∈ (jsm.waitingAt tubeName).entries ↔
      tubeName ∈ (jsm.clientAt cli).watchedTubes := by
    intro tubeName
    rw [lines.queued, JSM.wanted, if_pos waiting]
  refine (ends_leaveQueues inQueue (lines.nodup cli waiting)).mono ?_ (fun _ _ => id) id
  rintro _ after ⟨unreserved, nextClient⟩
  refine ⟨?_, unreserved, nextClient⟩
  have stillWaits : ∀ other, (after.clientAt other).isWaitingForResv = true →
      other ≠ cli ∧ after.clientAt other = jsm.clientAt other := by
    intro other waits
    have entry := unreserved.clientAt other
    split at entry
    next =>
      rw [entry] at waits
      cases waits
    next different => exact ⟨different, entry⟩
  have wasWaiting : ∀ other, (after.clientAt other).isWaitingForResv = true →
      (jsm.clientAt other).isWaitingForResv = true := by
    intro other waits
    rw [← (stillWaits other waits).2]
    exact waits
  refine ⟨unreserved.tracked lines.tracked, fun other inUse => ?_, fun other inUse => ?_,
    fun tubeName other => ?_, fun other waits => ?_⟩
  · rw [unreserved.clients] at inUse
    exact unreserved.placed (lines.placed other (inUse.imp_right (wasWaiting other)))
  · rw [unreserved.clients, unreserved.clientHeap] at inUse
    rw [nextClient]
    exact lines.allocated other (inUse.imp_right (Or.imp_left (wasWaiting other)))
  · rw [unreserved.queues, List.mem_filter, decide_eq_true_eq, lines.queued, JSM.wanted, JSM.wanted]
    rw [unreserved.clientAt]
    by_cases same : other = cli <;> simp [same]
  · rw [(stillWaits other waits).2]
    exact lines.nodup other (wasWaiting other waits)

/-- A client has got an entry for its request, which it may have had before. -/
structure Requested (cli : CliPtr) (watchedTubes : List TubeName) (before after : JSM) : Prop where
  idle : (before.clientAt cli).isWaitingForResv = false
  nextClient : before.nextClient ≤ after.nextClient
  allocated : cli.addr < after.nextClient
  others : ∀ other, other ≠ cli → after.clientAt other = before.clientAt other
  isPlaced : cli ∈ before.clientHeap →
    (after.clientAt cli).heapIndex = (before.clientAt cli).heapIndex
  isOff : cli ∉ before.clientHeap → (after.clientAt cli).heapIndex < 0
  waits : (after.clientAt cli).isWaitingForResv = true
  watches : (after.clientAt cli).watchedTubes = watchedTubes
  registered : ∀ other ∈ after.clients.entries, other = cli ∨ other ∈ before.clients.entries
  clientHeap : after.clientHeap = before.clientHeap
  queues : after.waitingAt = before.waitingAt
  frame : ClientFrame before after

theorem ends_requested (lines : LinesOk jsm) (clientId : ClientID) (reqID : ReqID)
    (watchedTubes : List TubeName) (resvDeadlineAt : Int64) :
    (registerClient clientId reqID watchedTubes resvDeadlineAt jsm).Ends
      (fun cli after => cli.cliID = clientId ∧ Requested cli watchedTubes jsm after)
      (fun _ after => after = jsm) True := by
  have registers := registers_registerClient clientId reqID watchedTubes resvDeadlineAt jsm
  generalize registerClient clientId reqID watchedTubes resvDeadlineAt jsm = outcome at registers ⊢
  cases registers with
  | @new clients absent entries =>
      have notWaiting : (jsm.clientAt ⟨clientId, jsm.nextClient⟩).isWaitingForResv = false := by
        by_contra waiting
        have := lines.allocated _ (Or.inr (Or.inl (by simpa using waiting)))
        exact absurd this (Nat.lt_irrefl _)
      have notOnHeap : (⟨clientId, jsm.nextClient⟩ : CliPtr) ∉ jsm.clientHeap := by
        intro onHeap
        have := lines.allocated _ (Or.inr (Or.inr onHeap))
        exact absurd this (Nat.lt_irrefl _)
      refine ⟨rfl, notWaiting, Nat.le_succ _, Nat.lt_succ_self _,
        fun _ different => if_neg different, fun onHeap => absurd onHeap notOnHeap,
        fun _ => by simp, by simp, by simp, ?_, rfl, rfl,
        ⟨rfl, rfl, rfl, fun _ present => present⟩⟩
      intro other member
      have member : other ∈ clients.entries := member
      rw [entries, List.mem_append, List.mem_singleton] at member
      exact member.symm
  | @known cli registered sameId idle =>
      refine ⟨sameId, idle, Nat.le_refl _, lines.allocated cli (Or.inl registered),
        fun _ different => if_neg different, fun _ => ?_, fun offHeap => ?_, ?_, ?_,
        fun _ => Or.inr, rfl, rfl,
        .updateClient jsm cli _⟩
      · simp [JSM.updateClient]
      · simpa [JSM.updateClient] using
          (lines.placed cli (Or.inl registered)).resolve_left offHeap
      · simp [JSM.updateClient]
      · simp [JSM.updateClient]
  | refused => exact rfl

/-- A client that has got its request enters the queues of its tubes. -/
theorem joined {middle : JSM} {watchedTubes : List TubeName} (lines : LinesOk jsm)
    (requested : Requested cli watchedTubes jsm middle) (nodup : watchedTubes.Nodup)
    (requeued : Requeued (middle.queuesWith cli watchedTubes) middle after) :
    LinesOk after := by
  have others : ∀ other, other ≠ cli → after.clientAt other = jsm.clientAt other := by
    intro other different
    rw [requeued.clientAt, requested.others other different]
  have waits : (after.clientAt cli).isWaitingForResv = true := by
    rw [requeued.clientAt, requested.waits]
  have watches : (after.clientAt cli).watchedTubes = watchedTubes := by
    rw [requeued.clientAt, requested.watches]
  have clientHeap : after.clientHeap = jsm.clientHeap :=
    requeued.clientHeap.trans requested.clientHeap
  refine ⟨fun i other occupied => ?_, fun other inUse => ?_, fun other inUse => ?_,
    fun tubeName other => ?_, fun other isWaiting => ?_⟩
  · have occupied : after.clientHeap[i]? = some other := occupied
    rw [clientHeap] at occupied
    have position : (jsm.clientAt other).heapIndex = i := lines.tracked i other occupied
    change (after.clientAt other).heapIndex = i
    by_cases same : other = cli
    · subst same
      rw [requeued.clientAt, requested.isPlaced (List.mem_of_getElem? occupied), position]
    · rw [others other same, position]
  · rw [JSM.Placed, clientHeap]
    by_cases same : other = cli
    · subst same
      by_cases inside : other ∈ jsm.clientHeap
      · exact Or.inl inside
      · exact Or.inr (by rw [requeued.clientAt]; exact requested.isOff inside)
    · rw [others other same] at inUse ⊢
      rw [requeued.clients] at inUse
      exact lines.placed other (inUse.imp_left fun member =>
        (requested.registered other member).resolve_left same)
  · rw [requeued.nextClient]
    by_cases same : other = cli
    · rw [same]
      exact requested.allocated
    · rw [others other same, requeued.clients, clientHeap] at inUse
      exact Nat.lt_of_lt_of_le (lines.allocated other (inUse.imp_left fun member =>
        (requested.registered other member).resolve_left same)) requested.nextClient
  · rw [requeued.queues, JSM.queuesWith, requested.queues]
    by_cases same : other = cli
    · subst same
      have outside : other ∉ (jsm.waitingAt tubeName).entries := by
        rw [lines.queued, JSM.wanted, requested.idle]
        exact List.not_mem_nil
      rw [JSM.wanted, waits, watches]
      by_cases watched : tubeName ∈ watchedTubes <;> simp [watched, outside]
    · have before := lines.queued tubeName other
      rw [JSM.wanted] at before ⊢
      rw [others other same, ← before]
      by_cases watched : tubeName ∈ watchedTubes <;> simp [watched, same]
  · by_cases same : other = cli
    · rw [same, watches]
      exact nodup
    · rw [others other same] at isWaiting ⊢
      exact lines.nodup other isWaiting

/-- A client asks for a reservation and enters the queues of its tubes, behind all others. -/
theorem ends_enters (lines : LinesOk jsm) (clientId : ClientID) (reqID : ReqID)
    (watchedTubes : List TubeName) (resvDeadlineAt : Int64) :
    (registerClient clientId reqID watchedTubes resvDeadlineAt jsm).Ends
      (fun cli middle => (forEach (joinWaitQ cli) watchedTubes middle).Ends
        (fun _ after => LinesOk after ∧ ClientFrame jsm after ∧ cli.addr < after.nextClient ∧
          (∀ tubeName, JoinedBehind (jsm.waitingAt tubeName).entries
            (after.waitingAt tubeName).entries) ∧
          WaitsKept (· = cli) jsm after ∧ (after.clientAt cli).isWaitingForResv = true ∧
          (∀ tubeName ∈ watchedTubes, cli ∈ (after.waitingAt tubeName).entries) ∧
          cli.cliID = clientId)
        (fun _ _ => False) True) (fun _ after => after = jsm) True := by
  apply (lines.ends_requested clientId reqID watchedTubes resvDeadlineAt).mono _
    (fun _ _ => id) id
  rintro cli middle ⟨isClient, requested⟩
  refine (ends_joinWaitQs_any middle cli watchedTubes).mono ?_ (fun _ _ => id) fun _ => trivial
  rintro _ after ⟨nodup, requeued⟩
  refine ⟨lines.joined requested nodup requeued, requested.frame.trans requeued.frame, ?_,
    fun tubeName => ?_, ⟨?_, ?_⟩, ?_, fun tubeName member => ?_, isClient⟩
  · rw [requeued.nextClient]
    exact requested.allocated
  · rw [requeued.queues, JSM.queuesWith, requested.queues]
    split
    · refine .joined fun queued => ?_
      have waiting := (lines.waits queued).1
      rw [requested.idle] at waiting
      cases waiting
    · exact .of_sublist (List.Sublist.refl _)
  · intro other different
    rw [requeued.clientAt, requested.others other different]
  · intro other member different
    rw [requeued.clients] at member
    exact (requested.registered other member).resolve_left different
  · rw [requeued.clientAt, requested.waits]
  · rw [requeued.queues, JSM.queuesWith, if_pos member]
    exact List.mem_append_right _ (List.mem_singleton_self _)

end LinesOk

/-! ## Runs -/

section Runs

variable {jsm : JSM} {nowSecs : Int64}

/-- What every run keeps of jobs and clients. -/
structure AnyRunOk (jsm : JSM) : Prop where
  jobs : JobsOk .anyRun jsm
  lines : LinesOk jsm

theorem AnyRunOk.of_clientView {after : JSM} (ok : AnyRunOk jsm) (jobs : JobsOk .anyRun after)
    (same : after.clientView = jsm.clientView) : AnyRunOk after :=
  ⟨jobs, ok.lines.of_clientView same⟩

/-- No client has come since the start, though some may have left. -/
structure NobodyCame (start jsm : JSM) : Prop extends AnyRunOk jsm where
  nextClient : jsm.nextClient = start.nextClient
  leaves : ∀ tubeName,
    (jsm.waitingAt tubeName).entries.Sublist (start.waitingAt tubeName).entries
  waits : ∀ cli, (jsm.clientAt cli).isWaitingForResv = true →
    (start.clientAt cli).isWaitingForResv = true

theorem NobodyCame.refl (ok : AnyRunOk jsm) : NobodyCame jsm jsm :=
  ⟨ok, rfl, fun _ => List.Sublist.refl _, fun _ => id⟩

theorem NobodyCame.of_frame {start after : JSM} (ok : NobodyCame start jsm)
    (jobs : JobsOk .anyRun after) (frame : JobFrame jsm after) : NobodyCame start after := by
  obtain ⟨_, _, clientAt, nextClient, queues⟩ := frame.fields
  refine ⟨ok.toAnyRunOk.of_clientView jobs frame.clients, nextClient.trans ok.nextClient,
    fun tubeName => ?_, ?_⟩
  · rw [queues]
    exact ok.leaves tubeName
  · rw [clientAt]
    exact ok.waits

theorem NobodyCame.repositioned {start after : JSM} {cli : CliPtr} (ok : NobodyCame start jsm)
    (known : cli.addr < start.nextClient) (moved : Repositioned cli jsm after) :
    NobodyCame start after := by
  refine ⟨⟨ok.jobs.of_clientFrame moved.frame,
    ok.lines.repositioned (ok.nextClient.symm ▸ known) moved⟩,
    moved.nextClient.trans ok.nextClient, fun tubeName => ?_, fun other waiting => ?_⟩
  · rw [moved.queues]
    exact ok.leaves tubeName
  · rw [(ClientResvEntry.fields_of_request (moved.request other)).2.2.1] at waiting
    exact ok.waits other waiting

theorem matchRules_nobodyCame (start : JSM) :
    MatchRules nowSecs (NobodyCame start) fun cli => cli.addr < start.nextClient where
  serve jsm _ _ clientID ok _ := by
    refine (ends_fromReadyToReserved ok.jobs nowSecs clientID).mono ?_ (fun _ _ _ => trivial)
      fun _ => trivial
    rintro _ after ⟨record, _, moved, _⟩
    exact ok.of_frame moved.inv moved.frame
  knows jsm cli ok waiting := by
    rw [← ok.nextClient]
    exact ok.lines.allocated cli (Or.inr (Or.inl waiting))
  unReserve jsm cli ok waiting := by
    refine (ok.lines.ends_unReserve waiting).mono ?_ (fun _ _ => False.elim) False.elim
    rintro _ after ⟨lines, unreserved, nextClient⟩
    refine ⟨⟨ok.jobs.of_clientFrame unreserved.frame, lines⟩, nextClient.trans ok.nextClient,
      fun tubeName => ?_, fun other stillWaits => ?_⟩
    · rw [unreserved.queues]
      exact List.filter_sublist.trans (ok.leaves tubeName)
    · rw [unreserved.clientAt] at stillWaits
      split at stillWaits
      · cases stillWaits
      · exact ok.waits other stillWaits
  updateClientTickAt cli known jsm ok :=
    (repositions_updateClientTickAt ok.lines.tracked).mono
      (fun _ _ moved => ok.repositioned known moved) (fun _ _ => False.elim) fun _ => trivial

theorem tickRules_nobodyCame (start : JSM) :
    TickRules nowSecs (NobodyCame start) fun cli => cli.addr < start.nextClient where
  toMatchRules := matchRules_nobodyCame start
  timer jsm tickAt ok :=
    ⟨ok.toAnyRunOk.of_clientView (ok.jobs.congr rfl rfl rfl rfl fun key => by cases key <;> rfl)
      rfl, ok.nextClient, ok.leaves, ok.waits⟩
  wake jsm _ _ ok _ _ := by
    refine (ends_fromDelayedToReady ok.jobs).mono ?_ (fun _ _ _ => trivial) fun _ => trivial
    rintro _ after ⟨record, _, moved⟩
    exact ok.of_frame moved.inv moved.frame
  expire jsm clientID _ ok _ _ := by
    refine (ends_fromReservedToReady ok.jobs clientID 0 false).mono ?_ (fun _ _ _ => trivial)
      fun _ => trivial
    rintro _ after ⟨record, _, moved⟩
    exact ok.of_frame moved.inv moved.frame
  clientHeapDequeue jsm ok := by
    unfold clientHeapDequeue
    cases heap : jsm.clientHeap with
    | nil => trivial
    | cons first rest =>
        have known : first.addr < start.nextClient := by
          rw [← ok.nextClient]
          exact ok.lines.allocated first (Or.inr (Or.inr (by rw [heap]; exact List.mem_cons_self)))
        have head : jsm.clientHeapState.items.head? = some first := by
          rw [JSM.clientHeapState, heap]
          rfl
        have moved : Repositioned first jsm _ :=
          .of_removed (removed_pop clientStore (clientResvLess jsm.clientAt) ok.lines.tracked head)
        exact ⟨ok.repositioned known moved, known⟩

/-- An operation has kept the clients in line, and at most one has joined each queue. -/
structure KeptLines (start jsm : JSM) : Prop extends AnyRunOk jsm where
  joined : ∀ tubeName,
    JoinedBehind (start.waitingAt tubeName).entries (jsm.waitingAt tubeName).entries

theorem NobodyCame.keptLines {start : JSM} (ok : NobodyCame start jsm) : KeptLines start jsm :=
  ⟨ok.toAnyRunOk, fun tubeName => .of_sublist (ok.leaves tubeName)⟩

theorem AnyRunOk.keptLines {after : JSM} (ok : AnyRunOk jsm) (jobs : JobsOk .anyRun after)
    (same : after.clientView = jsm.clientView) : KeptLines jsm after := by
  refine ⟨ok.of_clientView jobs same, fun tubeName => .of_sublist ?_⟩
  obtain ⟨_, _, _, _, queues⟩ := JSM.fields_of_clientView same
  rw [queues]

/-- The operations that look at clients. -/
def Op.servesClients : Op → Bool
  | .touch .. | .appendReservation .. | .tick .. => true
  | _ => false

/-- The other operations leave the clients alone. -/
theorem ends_run_clientView (jobs : JobsOk .anyRun jsm) (op : Op)
    (serves : op.servesClients = false) :
    (op.run jsm).Ends
      (fun _ after => JobsOk .anyRun after ∧ after.clientView = jsm.clientView)
      (fun _ after => JobsOk .anyRun after ∧ after.clientView = jsm.clientView) True := by
  have same : ∀ {after}, SameViews jsm after →
      JobsOk .anyRun after ∧ after.clientView = jsm.clientView :=
    fun same => ⟨jobs.of_sameViews same, same.frame.clients⟩
  have released : ∀ jobID clientID pri updatePri,
      (fromReservedToReady jobID clientID pri updatePri jsm).Ends
        (fun _ after => JobsOk .anyRun after ∧ after.clientView = jsm.clientView)
        (fun _ after => JobsOk .anyRun after ∧ after.clientView = jsm.clientView) True := by
    intro jobID clientID pri updatePri
    refine (ends_fromReservedToReady jobs clientID pri updatePri).mono ?_
      (fun _ _ failed => same failed.1) fun _ => trivial
    rintro _ after ⟨record, _, moved⟩
    exact ⟨moved.inv, moved.frame.clients⟩
  have peeked : ∀ key, ((do
      let entry ← peekAt key
      Prog.gets fun jsm => Reply.job (jsm.jobOf entry) : JSMProg Reply) jsm).Ends
        (fun _ after => JobsOk .anyRun after ∧ after.clientView = jsm.clientView)
        (fun _ after => JobsOk .anyRun after ∧ after.clientView = jsm.clientView) True :=
    fun key => ((keeps_peekAt key).bind fun _ => Prog.keeps_gets _) jsm ⟨jobs, rfl⟩
  cases op with
  | put nowSeconds priority delay ttr bodySize body tubeName =>
      refine Prog.ends_map ((ends_put jobs nowSeconds priority delay ttr bodySize body
        tubeName).mono ?_ ?_ fun _ => trivial)
      · rintro id after ⟨_, _, done, _⟩
        exact ⟨done.inv, done.clients⟩
      · rintro _ after ⟨_, done, _⟩
        exact ⟨done.inv, done.clients⟩
  | delete jobID clientID =>
      refine Prog.ends_map ((ends_delete jobs clientID (by simp [Kinds.anyRun])
        (by simp [Kinds.anyRun]) (fun isExact => by simp [Kinds.anyRun] at isExact)).mono ?_ ?_
        fun _ => trivial)
      · rintro _ after ⟨deleted, _⟩
        exact ⟨deleted.inv, deleted.frame.clients⟩
      · rintro _ after (⟨rfl, _⟩ | ⟨_, deleted⟩)
        · exact ⟨jobs, rfl⟩
        · exact ⟨deleted.inv, deleted.frame.clients⟩
  | getJob jobID =>
      refine Prog.ends_map ?_
      rw [getJob_apply]
      split <;> exact ⟨jobs, rfl⟩
  | peekDelayedJob tubeName => exact peeked (.delayed tubeName)
  | peekReadyJob tubeName => exact peeked (.ready tubeName)
  | peekBuriedJob tubeName => exact peeked (.buried tubeName)
  | release jobID clientID => exact Prog.ends_map (released jobID clientID 0 false)
  | releaseWith nowSeconds jobID clientID pri delay =>
      refine Prog.ends_map ?_
      unfold releaseWith
      split
      · exact released jobID clientID pri true
      · refine (ends_fromReservedToDelayed jobs nowSeconds clientID pri delay).mono ?_
          (fun _ _ failed => same failed.1) fun _ => trivial
        rintro _ after ⟨record, middle, _, moved, rfl⟩
        rw [JSM.lowerNextDelayTickAt_eq]
        exact ⟨moved.inv.congr rfl rfl rfl rfl fun key => by cases key <;> rfl,
          moved.frame.clients⟩
  | bury nowSeconds jobID priority clientID =>
      refine Prog.ends_map ((ends_fromReservedToBuried jobs nowSeconds priority
        clientID).mono ?_ (fun _ _ failed => same failed.1) fun _ => trivial)
      rintro _ after ⟨record, _, moved⟩
      exact ⟨moved.inv, moved.frame.clients⟩
  | kick jobID =>
      refine Prog.ends_map ((ends_fromBuriedToReady jobs).mono ?_
        (fun _ _ failed => same failed.1) fun _ => trivial)
      rintro _ after ⟨record, _, moved⟩
      exact ⟨moved.inv, moved.frame.clients⟩
  | kickN tubeName n =>
      exact Prog.ends_map ((ends_kickN jobs tubeName n).mono
        (fun _ _ kicked => ⟨kicked.inv, kicked.frame.clients⟩)
        (fun _ _ kicked => ⟨kicked.1.inv, kicked.1.frame.clients⟩) fun _ => trivial)
  | touch | appendReservation | tick => cases serves

/-- A touch moves at most the client that it names on the client heap. -/
theorem ends_touch_any (ok : AnyRunOk jsm) (nowSeconds : Int64) (jobID : JobID)
    (clientID : ClientID) :
    (touch nowSeconds jobID clientID jsm).Ends
      (fun _ after => NobodyCame jsm after ∧ ∀ chosen, WaitsKept chosen jsm after)
      (fun _ after => NobodyCame jsm after ∧ ∀ chosen, WaitsKept chosen jsm after) True := by
  refine Prog.ends_bind ((ends_touchMove ok.jobs nowSeconds clientID
    (fun isHeld => by simp [Kinds.anyRun] at isHeld)).mono (fun _ _ touches => touches)
    (fun _ after failed => ?_) fun _ => trivial) ?_
  · have same := failed.1
    exact ⟨(NobodyCame.refl ok).of_frame (ok.jobs.of_sameViews same) same.frame,
      fun _ => .of_clientView same.frame.clients⟩
  rintro _ middle ⟨record, _, moved⟩
  have nobodyCame := (NobodyCame.refl ok).of_frame moved.inv moved.frame
  have kept : ∀ chosen, WaitsKept chosen jsm middle := fun _ => .of_clientView moved.frame.clients
  rw [Prog.bind_apply]
  unfold findClient
  cases found : middle.clients.find clientID with
  | error error => exact ⟨nobodyCame, kept⟩
  | ok cli =>
      obtain ⟨registered, _⟩ := (middle.clients.find_eq_ok_iff clientID cli).mp found
      have known := nobodyCame.lines.allocated cli (Or.inl registered)
      rw [nobodyCame.nextClient] at known
      refine (repositions_updateClientTickAt nobodyCame.lines.tracked).mono
        (fun _ after repositioned => ?_) (fun _ _ => False.elim) fun _ => trivial
      exact ⟨nobodyCame.repositioned known repositioned,
        fun chosen => (kept chosen).trans repositioned.waitsKept⟩

theorem ends_run_keptLines (ok : AnyRunOk jsm) (op : Op) :
    (op.run jsm).Ends (fun _ => KeptLines jsm) (fun _ => KeptLines jsm) True := by
  by_cases serves : op.servesClients = false
  · exact (ends_run_clientView ok.jobs op serves).mono
      (fun _ _ same => ok.keptLines same.1 same.2) (fun _ _ same => ok.keptLines same.1 same.2) id
  have unchanged : KeptLines jsm jsm := (NobodyCame.refl ok).keptLines
  cases op with
  | touch nowSeconds jobID clientID =>
      exact Prog.ends_map ((ends_touch_any ok nowSeconds jobID clientID).mono
        (fun _ _ kept => kept.1.keptLines) (fun _ _ kept => kept.1.keptLines) id)
  | appendReservation clientId reqID watchedTubes nowSecs resvDeadlineAt =>
      refine Prog.ends_map (ends_appendReservation_of unchanged ((ok.lines.ends_enters clientId
        reqID watchedTubes resvDeadlineAt).mono (fun cli middle joins => ?_) ?_ id))
      · refine joins.mono ?_ (fun _ _ => False.elim) id
        rintro _ after ⟨lines, frame, known, joined, _⟩
        exact ⟨_, _, matchRules_nobodyCame after, .refl ⟨ok.jobs.of_clientFrame frame, lines⟩,
          known, fun final kept => ⟨kept.toAnyRunOk, fun tubeName =>
            (joined tubeName).leaves (kept.leaves tubeName)⟩⟩
      · rintro _ after rfl
        exact unchanged
  | tick nowSecs walk =>
      exact Prog.ends_map (((tickRules_nobodyCame jsm).keeps_tick walk jsm (.refl ok)).mono
        (fun _ _ kept => kept.keptLines) (fun _ _ kept => kept.keptLines) id)
  | _ => exact absurd rfl serves

/-- Every run keeps the ready and the delayed heaps exact and the clients in line. -/
theorem anyRunOk_of_reachable {admits : JSM → Op → Prop} (reachable : Reachable admits jsm) :
    AnyRunOk jsm :=
  reachable.invariant ⟨jobsOk_newJSM _, linesOk_newJSM⟩
    fun _ op _ _ ok _ steps => (steps.keeps (ends_run_keptLines ok op)).toAnyRunOk

end Runs

end Coolbeans
