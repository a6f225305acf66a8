import Coolbeans.CallOutcomes

/-!
# The invariant of the client containers

A registered client is in the client queue, and on the client heap if its
entry carries a position.  It stands in the wait queues of the tubes that its
request watches, for as long as it waits.  A client enters and leaves these
queues one after the other, so the invariant takes the tubes that a client
stands in as a parameter; between two operations they are the watched tubes of
the waiting clients.
-/

namespace Coolbeans

open FiniteMap PositionHeap StatefulProgram

/-- A client entry without its position on the client heap. -/
def ClientResvEntry.content (record : ClientResvEntry) : ClientResvEntry :=
  { record with heapIndex := 0 }

theorem ClientResvEntry.fields_of_content_eq {record content : ClientResvEntry}
    (same : record.content = content) :
    record.watchedTubes = content.watchedTubes ∧
      record.resvDeadlineAt = content.resvDeadlineAt ∧
      record.isWaitingForResv = content.isWaitingForResv ∧ record.tickAt = content.tickAt ∧
      record.reqID = content.reqID := by
  subst same
  exact ⟨rfl, rfl, rfl, rfl, rfl⟩

theorem ClientResvEntry.fields_of_content {first second : ClientResvEntry}
    (same : first.content = second.content) :
    first.watchedTubes = second.watchedTubes ∧ first.resvDeadlineAt = second.resvDeadlineAt ∧
      first.isWaitingForResv = second.isWaitingForResv ∧ first.tickAt = second.tickAt ∧
      first.reqID = second.reqID :=
  @fields_of_content_eq first second.content same

/-- The pair that the client heap orders its entries by. -/
def clientSortKey (clientAt : CliPtr → ClientResvEntry) (cli : CliPtr) :
    Lex (Int × ClientID) :=
  toLex ((clientAt cli).tickAt.toInt, cli.cliID)

theorem compares_clientResvLess (clientAt : CliPtr → ClientResvEntry) :
    Compares (clientResvLess clientAt) (clientSortKey clientAt) := by
  intro first second
  unfold clientResvLess clientSortKey
  rw [Prod.Lex.toLex_lt_toLex]
  split
  next same => simp [same]
  next different =>
    have ranksDiffer : (clientAt first).tickAt.toInt ≠ (clientAt second).tickAt.toInt :=
      fun same => different (Int64.toInt.inj same)
    simp [ranksDiffer, Int64.lt_iff_toInt_lt]

/-- The client containers agree, and a registered client stands in the wait
queues of the tubes that `wants` gives it. -/
structure ClientInv (wants : CliPtr → List TubeName) (jsm : JSM) : Prop where
  allocated : ∀ cli ∈ jsm.clients.entries, cli.addr < jsm.nextClient
  onHeap : ∀ cli ∈ jsm.clientHeap, cli ∈ jsm.clients.entries
  tracked : Tracked clientStore jsm.clientHeapState
  offHeap : ∀ cli ∈ jsm.clients.entries, cli ∉ jsm.clientHeap →
    (jsm.clientAt cli).heapIndex < 0
  ordered : Ordered (clientSortKey jsm.clientAt) jsm.clientHeap
  queued : ∀ tubeName cli, cli ∈ (jsm.waitingAt tubeName).entries ↔
    cli ∈ jsm.clients.entries ∧ tubeName ∈ wants cli

/-- The tubes that a client waits for. -/
def JSM.wanted (jsm : JSM) (cli : CliPtr) : List TubeName :=
  if (jsm.clientAt cli).isWaitingForResv then (jsm.clientAt cli).watchedTubes else []

/-- The invariant of a state between two operations.  A waiting client has a
deadline, so that the client heap never drops it. -/
structure ClientsOk (jsm : JSM) : Prop where
  inv : ClientInv jsm.wanted jsm
  deadline : ∀ cli ∈ jsm.clients.entries, (jsm.clientAt cli).isWaitingForResv = true →
    (jsm.clientAt cli).resvDeadlineAt < maxTime
  nodup : ∀ cli ∈ jsm.clients.entries, (jsm.clientAt cli).isWaitingForResv = true →
    (jsm.clientAt cli).watchedTubes.Nodup

/-- What the operations on clients leave alone. -/
structure ClientFrame (before after : JSM) : Prop where
  jobs : after.jobView = before.jobView
  nextDelayTickAt : after.nextDelayTickAt = before.nextDelayTickAt
  maxJobID : after.maxJobID = before.maxJobID
  tubes : ∀ tubeName, before.hasTube tubeName = true → after.hasTube tubeName = true

/-- Clients that are not chosen wait as they did before, and none of them is newly registered. -/
structure WaitsKept (chosen : CliPtr → Prop) (before after : JSM) : Prop where
  waits : ∀ cli, ¬ chosen cli →
    (after.clientAt cli).isWaitingForResv = (before.clientAt cli).isWaitingForResv
  registered : ∀ cli ∈ after.clients.entries, ¬ chosen cli → cli ∈ before.clients.entries

namespace WaitsKept

variable {chosen more : CliPtr → Prop} {before middle after : JSM}

theorem refl (chosen : CliPtr → Prop) (jsm : JSM) : WaitsKept chosen jsm jsm :=
  ⟨fun _ _ => rfl, fun _ member _ => member⟩

theorem trans (first : WaitsKept chosen before middle) (second : WaitsKept chosen middle after) :
    WaitsKept chosen before after where
  waits cli others := (second.waits cli others).trans (first.waits cli others)
  registered cli member others := first.registered cli (second.registered cli member others) others

theorem mono (kept : WaitsKept chosen before after) (implies : ∀ cli, chosen cli → more cli) :
    WaitsKept more before after where
  waits cli others := kept.waits cli (mt (implies cli) others)
  registered cli member others := kept.registered cli member (mt (implies cli) others)

theorem of_clientView (same : after.clientView = before.clientView) :
    WaitsKept chosen before after := by
  simp only [JSM.clientView, Prod.mk.injEq] at same
  obtain ⟨clients, _, clientAt, _⟩ := same
  exact ⟨fun cli _ => by rw [clientAt], fun cli member _ => clients ▸ member⟩

end WaitsKept

/-- The invariant after a write that touches neither the client heap nor the
positions and clocks of the entries on it. -/
theorem ClientInv.of_write {wants wants' : CliPtr → List TubeName} {before after : JSM}
    (inv : ClientInv wants before) (clientHeap : after.clientHeap = before.clientHeap)
    (onHeap : ∀ cli ∈ before.clientHeap,
      (after.clientAt cli).heapIndex = (before.clientAt cli).heapIndex ∧
        (after.clientAt cli).tickAt = (before.clientAt cli).tickAt ∧
        cli ∈ after.clients.entries)
    (registered : ∀ cli ∈ after.clients.entries, cli.addr < after.nextClient ∧
      (cli ∉ before.clientHeap → (after.clientAt cli).heapIndex < 0))
    (queued : ∀ tubeName cli, cli ∈ (after.waitingAt tubeName).entries ↔
      cli ∈ after.clients.entries ∧ tubeName ∈ wants' cli) : ClientInv wants' after := by
  refine ⟨fun cli member => (registered cli member).1, ?_, ?_, ?_, ?_, queued⟩
  · rw [clientHeap]
    exact fun cli member => (onHeap cli member).2.2
  · intro i cli occupied
    have occupied : after.clientHeap[i]? = some cli := occupied
    rw [clientHeap] at occupied
    exact (onHeap cli (List.mem_of_getElem? occupied)).1.trans (inv.tracked i cli occupied)
  · rw [clientHeap]
    exact fun cli member => (registered cli member).2
  · rw [clientHeap]
    apply inv.ordered.congr
    intro cli member
    simp only [clientSortKey, (onHeap cli member).2.1]

theorem ClientInv.updateClient {wants : CliPtr → List TubeName} {jsm : JSM}
    (inv : ClientInv wants jsm) (cli : CliPtr) {change : ClientResvEntry → ClientResvEntry}
    (keeps : ∀ record, (change record).heapIndex = record.heapIndex ∧
      (change record).tickAt = record.tickAt) :
    ClientInv wants (jsm.updateClient cli change) := by
  have same : ∀ other, ((jsm.updateClient cli change).clientAt other).heapIndex =
      (jsm.clientAt other).heapIndex ∧ ((jsm.updateClient cli change).clientAt other).tickAt =
      (jsm.clientAt other).tickAt := by
    intro other
    simp only [JSM.updateClient]
    split
    next isCli => rw [isCli]; exact keeps _
    next => exact ⟨rfl, rfl⟩
  exact inv.of_write rfl
    (fun other member => ⟨(same other).1, (same other).2, inv.onHeap other member⟩)
    (fun other member => ⟨inv.allocated other member, fun outside =>
      (same other).1.trans_lt (inv.offHeap other member outside)⟩) inv.queued

namespace ClientFrame

theorem refl (jsm : JSM) : ClientFrame jsm jsm := ⟨rfl, rfl, rfl, fun _ present => present⟩

theorem trans {first second third : JSM} (before : ClientFrame first second)
    (after : ClientFrame second third) : ClientFrame first third :=
  ⟨after.jobs.trans before.jobs, after.nextDelayTickAt.trans before.nextDelayTickAt,
    after.maxJobID.trans before.maxJobID,
    fun tubeName present => after.tubes tubeName (before.tubes tubeName present)⟩

theorem updateClient (jsm : JSM) (cli : CliPtr) (change : ClientResvEntry → ClientResvEntry) :
    ClientFrame jsm (jsm.updateClient cli change) :=
  ⟨rfl, rfl, rfl, fun _ present => present⟩

theorem putClientHeap (jsm : JSM) (heap : HeapState CliPtr (CliPtr → ClientResvEntry)) :
    ClientFrame jsm (jsm.putClientHeap heap) :=
  ⟨rfl, rfl, rfl, fun _ present => present⟩

theorem setClients (jsm : JSM) (clients : ClientResvQueue) :
    ClientFrame jsm { jsm with clients := clients } :=
  ⟨rfl, rfl, rfl, fun _ present => present⟩

end ClientFrame

/-! ## Scheduling a client -/

theorem clientStore_content (memory : CliPtr → ClientResvEntry) (item : CliPtr) (position : Int)
    (cli : CliPtr) : (clientStore.set memory item position cli).content = (memory cli).content := by
  simp only [clientStore]
  split
  next same => rw [same]; rfl
  next => rfl

theorem clientSortKey_congr {first second : CliPtr → ClientResvEntry}
    (same : ∀ cli, (first cli).content = (second cli).content) :
    clientSortKey first = clientSortKey second := by
  funext cli
  obtain ⟨_, _, _, tickAt, _⟩ := ClientResvEntry.fields_of_content (same cli)
  simp only [clientSortKey, tickAt]

/-- The client needs processing at `tickAt`, or never; it is on the client
heap in the first case only, and is forgotten when it comes off. -/
structure Rescheduled (cli : CliPtr) (tickAt : Int64) (before after : JSM) : Prop where
  content : ∀ other, (after.clientAt other).content =
    if other = cli then { (before.clientAt cli).content with tickAt := tickAt }
    else (before.clientAt other).content
  heap : ∀ other, other ∈ after.clientHeap ↔
    if other = cli then tickAt < maxTime else other ∈ before.clientHeap
  entries : after.clients.entries =
    if tickAt < maxTime ∨ cli ∉ before.clientHeap then before.clients.entries
    else before.clients.entries.filter (· ≠ cli)
  queues : after.waitingAt = before.waitingAt
  frame : ClientFrame before after

section Schedule

variable {wants : CliPtr → List TubeName} {jsm : JSM} {cli : CliPtr}

theorem ClientInv.heapIndex_neg_iff (inv : ClientInv wants jsm)
    (registered : cli ∈ jsm.clients.entries) :
    (jsm.clientAt cli).heapIndex < 0 ↔ cli ∉ jsm.clientHeap := by
  constructor
  · intro negative member
    obtain ⟨i, occupied⟩ := List.getElem?_of_mem member
    have position := inv.tracked i cli occupied
    change (jsm.clientAt cli).heapIndex = i at position
    omega
  · exact inv.offHeap cli registered

/-- The client with its new clock, before the heap is put in order. -/
structure Ticked (cli : CliPtr) (tickAt : Int64) (before after : JSM) : Prop where
  content : ∀ other, (after.clientAt other).content =
    if other = cli then { (before.clientAt cli).content with tickAt := tickAt }
    else (before.clientAt other).content
  position : ∀ other, (after.clientAt other).heapIndex = (before.clientAt other).heapIndex
  otherKey : ∀ other, other ≠ cli →
    clientSortKey after.clientAt other = clientSortKey before.clientAt other

theorem ticked_updateClient (jsm : JSM) (cli : CliPtr) (tickAt : Int64) :
    Ticked cli tickAt jsm
      (jsm.updateClient cli fun record => { record with tickAt := tickAt }) := by
  refine ⟨fun other => ?_, fun other => ?_, fun other different => ?_⟩
  · simp only [JSM.updateClient]
    split <;> rfl
  · simp only [JSM.updateClient]
    split
    next same => rw [same]
    next => rfl
  · simp only [clientSortKey, JSM.updateClient, if_neg different]

theorem Ticked.tracked {tickAt : Int64} {after : JSM} (ticked : Ticked cli tickAt jsm after)
    (sameHeap : after.clientHeap = jsm.clientHeap)
    (tracked : Tracked clientStore jsm.clientHeapState) :
    Tracked clientStore after.clientHeapState := by
  intro i other occupied
  have occupied : after.clientHeap[i]? = some other := occupied
  rw [sameHeap] at occupied
  exact (ticked.position other).trans (tracked i other occupied)

/-- The client has its new clock and a place on the client heap, which is in order. -/
theorem rescheduled_of_heap (inv : ClientInv wants jsm) (registered : cli ∈ jsm.clients.entries)
    {tickAt : Int64} (early : tickAt < maxTime) {middle : JSM}
    (state : jsm.updateClient cli (fun record => { record with tickAt := tickAt }) = middle)
    {heap : HeapState CliPtr (CliPtr → ClientResvEntry)}
    (members : ∀ other, other ∈ heap.items ↔ other = cli ∨ other ∈ jsm.clientHeap)
    (tracked : Tracked clientStore heap)
    (outside : ∀ other, other ∉ jsm.clientHeap → other ≠ cli →
      (heap.mem other).heapIndex = (middle.clientAt other).heapIndex)
    (sameContent : ∀ other, (heap.mem other).content = (middle.clientAt other).content)
    (sorted : Ordered (clientSortKey middle.clientAt) heap.items) :
    ClientInv wants (middle.putClientHeap heap) ∧
      Rescheduled cli tickAt jsm (middle.putClientHeap heap) := by
  have ticked := ticked_updateClient jsm cli tickAt
  have frame := ClientFrame.updateClient jsm cli fun record => { record with tickAt := tickAt }
  subst state
  constructor
  · exact
      { allocated := inv.allocated
        onHeap := by
          intro other member
          rcases (members other).mp member with rfl | old
          · exact registered
          · exact inv.onHeap other old
        tracked := tracked
        offHeap := by
          intro other member notOnHeap
          have notOnHeap : other ∉ heap.items := notOnHeap
          rw [members, not_or] at notOnHeap
          change (heap.mem other).heapIndex < 0
          rw [outside other notOnHeap.2 notOnHeap.1, ticked.position]
          exact inv.offHeap other member notOnHeap.2
        ordered := by
          change Ordered (clientSortKey heap.mem) heap.items
          rw [clientSortKey_congr sameContent]
          exact sorted
        queued := inv.queued }
  · refine ⟨fun other => (sameContent other).trans (ticked.content other), fun other => ?_, ?_,
      rfl, frame.trans (.putClientHeap _ heap)⟩
    · refine (members other).trans ?_
      by_cases same : other = cli
      · simp [same, early]
      · simp [same]
    · rw [if_pos (Or.inl early)]
      rfl

theorem rescheduled_push (inv : ClientInv wants jsm) (registered : cli ∈ jsm.clients.entries)
    (absent : cli ∉ jsm.clientHeap) {tickAt : Int64} (early : tickAt < maxTime) :
    ClientInv wants (JSM.clientHeapEnqueue cli
        (jsm.updateClient cli fun record => { record with tickAt := tickAt })) ∧
      Rescheduled cli tickAt jsm (JSM.clientHeapEnqueue cli
        (jsm.updateClient cli fun record => { record with tickAt := tickAt })) := by
  have ticked := ticked_updateClient jsm cli tickAt
  unfold JSM.clientHeapEnqueue
  generalize state : jsm.updateClient cli (fun record => { record with tickAt := tickAt }) =
    middle at ticked ⊢
  have sameHeap : middle.clientHeap = jsm.clientHeap := by rw [← state]; rfl
  have absentMiddle : cli ∉ middle.clientHeap := sameHeap ▸ absent
  have inserted := inserted_push clientStore (clientResvLess middle.clientAt) cli
    middle.clientHeapState
  have ordered : Ordered (clientSortKey middle.clientAt) middle.clientHeap := by
    rw [sameHeap]
    apply inv.ordered.congr
    intro other member
    exact ticked.otherKey other fun same => absent (same ▸ member)
  have sorted := ordered_push clientStore (compares_clientResvLess middle.clientAt)
    middle.clientHeapState ordered cli
  apply rescheduled_of_heap inv registered early state
  · intro other
    rw [inserted.perm.mem_iff, List.mem_cons, JSM.clientHeapState, sameHeap]
  · exact inserted.tracked (ticked.tracked sameHeap inv.tracked) absentMiddle
  · intro other notOnHeap different
    rw [← sameHeap] at notOnHeap
    exact inserted.outside other notOnHeap different
  · exact fun other => inserted.frame (fun memory => (memory other).content)
      fun memory item position => clientStore_content memory item position other
  · exact sorted

theorem clientHeapDequeue_eq (head : jsm.clientHeap.head? = some cli) :
    clientHeapDequeue jsm = .ok cli (jsm.putClientHeap
      (pop clientStore (clientResvLess jsm.clientAt) jsm.clientHeapState)) := by
  unfold clientHeapDequeue
  cases items : jsm.clientHeap with
  | nil => simp [items] at head
  | cons first rest =>
      rw [items, List.head?_cons] at head
      cases head
      rfl

theorem clientHeapFix_eq {i : Nat} (position : (jsm.clientAt cli).heapIndex = i)
    (occupied : jsm.clientHeap[i]? = some cli) :
    clientHeapFix cli jsm = .ok () (jsm.putClientHeap
      (fix clientStore (clientResvLess jsm.clientAt) i jsm.clientHeapState)) := by
  obtain ⟨bound, _⟩ := List.getElem?_eq_some_iff.mp occupied
  have inRange : ¬ ((i : Int) ≠ 0 ∧ (jsm.clientHeap.length : Int) ≤ i) := by omega
  simp only [clientHeapFix, position, if_neg inRange, Int.toNat_natCast]

theorem rescheduled_fix (inv : ClientInv wants jsm) (member : cli ∈ jsm.clientHeap)
    {tickAt : Int64} (early : tickAt < maxTime) :
    (clientHeapFix cli (jsm.updateClient cli fun record => { record with tickAt := tickAt })).Ends
      (fun _ after => ClientInv wants after ∧ Rescheduled cli tickAt jsm after)
      (fun _ _ => False) False := by
  have ticked := ticked_updateClient jsm cli tickAt
  generalize state : jsm.updateClient cli (fun record => { record with tickAt := tickAt }) =
    middle at ticked ⊢
  have sameHeap : middle.clientHeap = jsm.clientHeap := by rw [← state]; rfl
  obtain ⟨i, occupied⟩ := List.getElem?_of_mem member
  obtain ⟨bound, _⟩ := List.getElem?_eq_some_iff.mp occupied
  have position : (middle.clientAt cli).heapIndex = i :=
    (ticked.position cli).trans (inv.tracked i cli occupied)
  rw [clientHeapFix_eq position (by rw [sameHeap, occupied])]
  have rearranged := rearranged_fix clientStore (clientResvLess middle.clientAt) i
    middle.clientHeapState
  have loose : Loose (clientSortKey middle.clientAt) middle.clientHeap.length i
      middle.clientHeap := by
    rw [sameHeap]
    refine Ordered.loose_of_agree inv.ordered fun c other elsewhere atSlot => ?_
    apply ticked.otherKey
    rintro rfl
    exact elsewhere (inv.tracked.slot_unique clientStore atSlot occupied)
  have sorted := ordered_fix clientStore (compares_clientResvLess middle.clientAt)
    middle.clientHeapState (by
      change i < middle.clientHeap.length
      rwa [sameHeap]) loose
  apply rescheduled_of_heap inv (inv.onHeap cli member) early state
  · intro other
    rw [rearranged.mem_iff, JSM.clientHeapState, sameHeap]
    constructor
    · exact Or.inr
    · rintro (rfl | old)
      · exact member
      · exact old
  · exact rearranged.tracked (ticked.tracked sameHeap inv.tracked)
  · intro other notOnHeap _
    rw [← sameHeap] at notOnHeap
    exact rearranged.outside other notOnHeap
  · exact fun other => rearranged.frame (fun memory => (memory other).content)
      fun memory item position => clientStore_content memory item position other
  · exact sorted

theorem ends_scheduleClient (inv : ClientInv wants jsm)
    (registered : cli ∈ jsm.clients.entries) {tickAt : Int64} (early : tickAt < maxTime) :
    (scheduleClient cli tickAt jsm).Ends
      (fun _ after => ClientInv wants after ∧ Rescheduled cli tickAt jsm after)
      (fun _ _ => False) False := by
  unfold scheduleClient
  rw [readClient_bind]
  have negative := inv.heapIndex_neg_iff registered
  split
  next off => exact rescheduled_push inv registered (negative.mp off) early
  next on =>
    rw [negative, Classical.not_not] at on
    exact rescheduled_fix inv on early

theorem clientHeapRemove_eq {i : Nat} (position : (jsm.clientAt cli).heapIndex = i)
    (occupied : jsm.clientHeap[i]? = some cli) :
    clientHeapRemove cli jsm = .ok () (jsm.putClientHeap
      (remove clientStore (clientResvLess jsm.clientAt) i jsm.clientHeapState)) := by
  obtain ⟨bound, _⟩ := List.getElem?_eq_some_iff.mp occupied
  have small : ¬ (jsm.clientHeap.length : Int) ≤ i := by omega
  have nonneg : ¬ (i : Int) < 0 := by omega
  simp only [clientHeapRemove, position, if_neg small, if_neg nonneg, Int.toNat_natCast,
    occupied, ne_eq, not_true_eq_false, if_false]

/-- The client is off the client heap; nothing else has changed. -/
structure Dequeued (cli : CliPtr) (before after : JSM) : Prop where
  clients : after.clients = before.clients
  content : ∀ other, (after.clientAt other).content = (before.clientAt other).content
  heap : ∀ other, other ∈ after.clientHeap ↔ other ≠ cli ∧ other ∈ before.clientHeap
  queues : after.waitingAt = before.waitingAt
  frame : ClientFrame before after

theorem ClientInv.dequeued (inv : ClientInv wants jsm)
    {heap : HeapState CliPtr (CliPtr → ClientResvEntry)}
    (removed : Removed clientStore cli jsm.clientHeapState heap)
    (sorted : Ordered (clientSortKey jsm.clientAt) heap.items) :
    ClientInv wants (jsm.putClientHeap heap) ∧ Dequeued cli jsm (jsm.putClientHeap heap) := by
  have members : ∀ other, other ∈ heap.items ↔ other ≠ cli ∧ other ∈ jsm.clientHeap :=
    fun other => removed.mem_iff clientStore inv.tracked
  have sameContent : ∀ other, (heap.mem other).content = (jsm.clientAt other).content :=
    fun other => removed.frame (fun memory => (memory other).content)
      fun memory item position => clientStore_content memory item position other
  refine ⟨?_, rfl, sameContent, members, rfl, .putClientHeap jsm heap⟩
  exact
    { allocated := inv.allocated
      onHeap := fun other onHeap => inv.onHeap other ((members other).mp onHeap).2
      tracked := removed.tracked
      offHeap := by
        intro other registered outside
        have outside : other ∉ heap.items := outside
        by_cases same : other = cli
        · rw [same]
          have isOut : (heap.mem cli).heapIndex = -1 := removed.out
          change (heap.mem cli).heapIndex < 0
          omega
        · have wasOff : other ∉ jsm.clientHeap := fun inside =>
            outside ((members other).mpr ⟨same, inside⟩)
          exact (removed.outside other wasOff).trans_lt (inv.offHeap other registered wasOff)
      ordered := by
        change Ordered (clientSortKey heap.mem) heap.items
        rw [clientSortKey_congr sameContent]
        exact sorted
      queued := inv.queued }

theorem ClientInv.forgotten (inv : ClientInv wants jsm) (absent : cli ∉ jsm.clientHeap)
    (idle : wants cli = []) {clients : ClientResvQueue}
    (entries : clients.entries = jsm.clients.entries.filter (· ≠ cli)) :
    ClientInv wants { jsm with clients := clients } := by
  have registered : ∀ other, other ∈ clients.entries ↔
      other ∈ jsm.clients.entries ∧ other ≠ cli := by
    intro other
    rw [entries, List.mem_filter, decide_eq_true_eq]
  refine inv.of_write rfl (fun other member => ⟨rfl, rfl, ?_⟩) (fun other member => ?_) ?_
  · exact (registered other).mpr
      ⟨inv.onHeap other member, fun same => absent (same ▸ member)⟩
  · have old := ((registered other).mp member).1
    exact ⟨inv.allocated other old, inv.offHeap other old⟩
  · intro tubeName other
    refine (inv.queued tubeName other).trans ?_
    rw [registered]
    constructor
    · rintro ⟨member, wanted⟩
      refine ⟨⟨member, ?_⟩, wanted⟩
      rintro rfl
      rw [idle] at wanted
      cases wanted
    · rintro ⟨⟨member, _⟩, wanted⟩
      exact ⟨member, wanted⟩

/-- The clock of a client that is not on the client heap is free. -/
theorem ClientInv.tickAt (inv : ClientInv wants jsm) (absent : cli ∉ jsm.clientHeap)
    (tickAt : Int64) :
    ClientInv wants (jsm.updateClient cli fun record => { record with tickAt := tickAt }) := by
  have ticked := ticked_updateClient jsm cli tickAt
  refine inv.of_write rfl
    (fun other member => ⟨ticked.position other, ?_, inv.onHeap other member⟩)
    (fun other member => ⟨inv.allocated other member, fun outside =>
      (ticked.position other).trans_lt (inv.offHeap other member outside)⟩) inv.queued
  have different : other ≠ cli := fun same => absent (same ▸ member)
  simp [JSM.updateClient, different]

/-- A client that comes off the client heap is no longer registered. -/
theorem ends_unscheduleClient (inv : ClientInv wants jsm)
    (registered : cli ∈ jsm.clients.entries) (idle : wants cli = []) {tickAt : Int64}
    (late : ¬ tickAt < maxTime) :
    (unscheduleClient cli tickAt jsm).Ends
      (fun _ after => ClientInv wants after ∧ Rescheduled cli tickAt jsm after)
      (fun _ _ => False) False := by
  unfold unscheduleClient
  rw [readClient_bind]
  have negative := inv.heapIndex_neg_iff registered
  split
  next on =>
    have member : cli ∈ jsm.clientHeap := by
      by_contra absent
      have := negative.mpr absent
      omega
    obtain ⟨i, occupied⟩ := List.getElem?_of_mem member
    obtain ⟨bound, _⟩ := List.getElem?_eq_some_iff.mp occupied
    have removal := clientHeapRemove_eq (inv.tracked i cli occupied) occupied
    obtain ⟨invOff, dequeued⟩ := inv.dequeued
      (removed_remove clientStore (clientResvLess jsm.clientAt) inv.tracked occupied)
      (ordered_remove clientStore (compares_clientResvLess jsm.clientAt)
        jsm.clientHeapState inv.ordered bound)
    generalize jsm.putClientHeap (remove clientStore (clientResvLess jsm.clientAt) i
      jsm.clientHeapState) = off at removal invOff dequeued
    obtain ⟨clients, forgets, entries⟩ := jsm.clients.remove_of_mem registered
    have forgotten : removeClient cli off = .ok () { off with clients := clients } := by
      simp only [removeClient, dequeued.clients, forgets]
    rw [Prog.bind_apply, Prog.attempt_of_ok removal, Outcome.ok_andThen]
    dsimp only
    rw [Prog.bind_apply, Prog.attempt_of_ok forgotten, Outcome.ok_andThen]
    dsimp only
    have absent : cli ∉ off.clientHeap := fun inside => ((dequeued.heap cli).mp inside).1 rfl
    have ticked := ticked_updateClient { off with clients := clients } cli tickAt
    rw [updateClient, Prog.modify_apply]
    constructor
    · have rest : clients.entries = off.clients.entries.filter (· ≠ cli) := by
        rw [dequeued.clients, entries]
      exact (invOff.forgotten absent idle rest).tickAt absent tickAt
    · refine ⟨fun other => ?_, fun other => ?_, ?_, dequeued.queues, ?_⟩
      · rw [ticked.content]
        change (if other = cli then { (off.clientAt cli).content with tickAt := tickAt }
          else (off.clientAt other).content) = _
        rw [dequeued.content, dequeued.content]
      · refine (dequeued.heap other).trans ?_
        by_cases same : other = cli
        · simp [same, late]
        · simp [same]
      · rw [if_neg (by simp [late, member])]
        exact entries
      · exact (dequeued.frame.trans (.setClients off clients)).trans (.updateClient _ cli _)
  next on =>
    have absent : cli ∉ jsm.clientHeap := by
      rw [← negative]
      omega
    have ticked := ticked_updateClient jsm cli tickAt
    rw [updateClient, Prog.modify_apply]
    refine ⟨inv.tickAt absent tickAt, ticked.content, fun other => ?_, ?_, rfl,
      .updateClient jsm cli _⟩
    · change other ∈ jsm.clientHeap ↔ _
      by_cases same : other = cli
      · simp [same, late, absent]
      · simp [same]
    · rw [if_pos (Or.inr absent)]
      rfl

/-- The expiry of the first reserved job of a client. -/
def JSM.firstExpiry (jsm : JSM) (clientID : ClientID) : Option Int64 :=
  (jsm.heapAt (.reserved clientID)).head?.map fun entry => (jsm.jobOf entry).expiresAt

/-- The clock that `updateClientTickAt` computes. -/
def JSM.tickAtFor (jsm : JSM) (cli : CliPtr) : Int64 :=
  nextClientTickAt (jsm.clientAt cli) (jsm.firstExpiry cli.cliID)

theorem updateClientTickAt_eq (cli : CliPtr) (jsm : JSM) :
    updateClientTickAt cli jsm =
      if jsm.tickAtFor cli < maxTime then scheduleClient cli (jsm.tickAtFor cli) jsm
      else unscheduleClient cli (jsm.tickAtFor cli) jsm := by
  rw [updateClientTickAt, readClient_bind, Prog.bind_apply, nextReservedJob, attempt_peekAt,
    JSM.tickAtFor, JSM.firstExpiry]
  cases (jsm.heapAt (.reserved cli.cliID)).head? with
  | none => exact apply_ite (fun program : JSMProg Unit => program jsm) _ _ _
  | some entry => exact apply_ite (fun program : JSMProg Unit => program jsm) _ _ _

theorem ends_updateClientTickAt (inv : ClientInv wants jsm)
    (registered : cli ∈ jsm.clients.entries)
    (kept : ¬ jsm.tickAtFor cli < maxTime → wants cli = []) :
    (updateClientTickAt cli jsm).Ends
      (fun _ after => ClientInv wants after ∧ Rescheduled cli (jsm.tickAtFor cli) jsm after)
      (fun _ _ => False) False := by
  rw [updateClientTickAt_eq]
  split
  next early => exact ends_scheduleClient inv registered early
  next late => exact ends_unscheduleClient inv registered (kept late) late

end Schedule

end Coolbeans
