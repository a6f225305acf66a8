import Coolbeans.Board
import Coolbeans.ClientClocks
import Coolbeans.DelayTimer

/-!
# What a state shows on the board

The board of a state: its records, without their implementations, the requests of the clients
that wait, and the wait queues, with clients in place of addresses.  An exact heap holds the jobs
that the board has for it, and its head is the first of them.
-/

namespace Coolbeans

open FiniteMap PositionHeap SortedListing StatefulProgram

/-! ## Jobs without their implementation -/

/-- A job as the job interface shows it: which implementation it is cannot be seen. -/
def Job.plain (job : Job) : Job :=
  { job with impl := .localJob }

/-- A reply with its job as the interface shows it. -/
def Reply.plain : Reply → Reply
  | .job record => .job record.plain
  | reply => reply

/-- An answer with its job as the interface shows it. -/
def Answer.plain : Answer → Answer
  | .ok reply => .ok reply.plain
  | .error error => .error error

namespace Job

variable (job : Job)

@[simp]
theorem plain_id : job.plain.id = job.id :=
  rfl

@[simp]
theorem plain_state : job.plain.state = job.state :=
  rfl

@[simp]
theorem plain_reservedBy : job.plain.reservedBy = job.reservedBy :=
  rfl

@[simp]
theorem plain_expiresAt : job.plain.expiresAt = job.expiresAt :=
  rfl

@[simp]
theorem plain_readyAt : job.plain.readyAt = job.readyAt :=
  rfl

@[simp]
theorem plain_sortKey (key : HeapKey) : key.sortKey job.plain = key.sortKey job := by
  cases key <;> rfl

/-! The implementations differ when a job leaves the buried state, and only then. -/

variable {job}

theorem plain_updateState (unburied : job.state ≠ .buried) (state : JobState) :
    (job.updateState state).plain = job.plain.updateState state := by
  simp [plain, unburied]

theorem plain_kicked : job.kicked.plain = job.plain.kicked := by
  simp [plain, kicked]

theorem plain_released (unburied : job.state ≠ .buried) (pri : UInt32) (updatePri : Bool) :
    (job.released pri updatePri).plain = job.plain.released pri updatePri := by
  cases updatePri <;> simp [plain, released, unburied]

theorem plain_releasedWithDelay (unburied : job.state ≠ .buried) (nowSeconds : Int64)
    (pri : UInt32) (delay : Int64) :
    (job.releasedWithDelay nowSeconds pri delay).plain =
      job.plain.releasedWithDelay nowSeconds pri delay := by
  simp [plain, releasedWithDelay, unburied]

theorem plain_reservedFor (unburied : job.state ≠ .buried) (nowSeconds : Int64)
    (clientID : ClientID) :
    (job.reservedFor nowSeconds clientID).plain = job.plain.reservedFor nowSeconds clientID := by
  simp [plain, reservedFor, unburied]

theorem plain_buriedWith (unburied : job.state ≠ .buried) (nowSeconds : Int64)
    (priority : UInt32) :
    (job.buriedWith nowSeconds priority).plain = job.plain.buriedWith nowSeconds priority := by
  simp [plain, buriedWith, unburied]

theorem plain_wake (now : Int64) : (job.wake now).plain = job.plain.wake now := by
  unfold wake
  rw [plain_state, plain_readyAt]
  split
  next due => exact plain_updateState (by simp [due.1]) _
  next => rfl

theorem plain_lapse (now : Int64) : (job.lapse now).plain = job.plain.lapse now := by
  unfold lapse
  rw [plain_state, plain_expiresAt]
  split
  next expired => exact plain_released (by simp [expired.1]) 0 false
  next => rfl

end Job

/-! ## The board of a state -/

/-- The request of a client that waits. -/
def ClientResvEntry.openRequest (record : ClientResvEntry) : Option OpenRequest :=
  if record.isWaitingForResv then some ⟨record.reqID, record.resvDeadlineAt⟩ else none

namespace JSM

/-- The open request of a client. -/
def requestOf (jsm : JSM) (clientID : ClientID) : Option OpenRequest :=
  match jsm.clients.find clientID with
  | .ok cli => (jsm.clientAt cli).openRequest
  | .error _ => none

/-- What can be seen of a state. -/
def board (jsm : JSM) : Board where
  jobs id := (jsm.recordOf id).map Job.plain
  lastID := jsm.maxJobID
  requests := jsm.requestOf
  lines tubeName := (jsm.waitingAt tubeName).entries.map (·.cliID)

end JSM

section Requests

variable {before after jsm : JSM} {clientID : ClientID}

theorem ClientResvEntry.openRequest_of_content {first second : ClientResvEntry}
    (same : first.content = second.content) : first.openRequest = second.openRequest := by
  obtain ⟨_, deadline, waiting, _, reqID⟩ := ClientResvEntry.fields_of_content same
  simp only [ClientResvEntry.openRequest, deadline, waiting, reqID]

theorem ClientResvEntry.openRequest_eq_none_iff (record : ClientResvEntry) :
    record.openRequest = none ↔ record.isWaitingForResv = false := by
  unfold ClientResvEntry.openRequest
  cases record.isWaitingForResv <;> simp

theorem JSM.requestOf_of_mem {cli : CliPtr} (registered : cli ∈ jsm.clients.entries) :
    jsm.requestOf cli.cliID = (jsm.clientAt cli).openRequest := by
  unfold JSM.requestOf
  rw [(jsm.clients.find_eq_ok_iff cli.cliID cli).mpr ⟨registered, rfl⟩]

theorem JSM.requestOf_eq_some_iff (request : OpenRequest) :
    jsm.requestOf clientID = some request ↔
      ∃ cli ∈ jsm.clients.entries, cli.cliID = clientID ∧
        (jsm.clientAt cli).openRequest = some request := by
  constructor
  · intro asks
    unfold JSM.requestOf at asks
    split at asks
    next cli found =>
      obtain ⟨registered, named⟩ := (jsm.clients.find_eq_ok_iff clientID cli).mp found
      exact ⟨cli, registered, named, asks⟩
    next => cases asks
  · rintro ⟨cli, registered, rfl, asks⟩
    rw [JSM.requestOf_of_mem registered, asks]

/-- The requests are those of the clients that stay, if those that come or go do not wait. -/
theorem JSM.requestOf_congr
    (kept : ∀ cli ∈ after.clients.entries, cli ∈ before.clients.entries →
      (after.clientAt cli).openRequest = (before.clientAt cli).openRequest)
    (came : ∀ cli ∈ after.clients.entries, cli ∉ before.clients.entries →
      (after.clientAt cli).openRequest = none)
    (gone : ∀ cli ∈ before.clients.entries, cli ∉ after.clients.entries →
      (before.clientAt cli).openRequest = none) : after.requestOf = before.requestOf := by
  funext clientID
  apply Option.ext
  intro request
  rw [JSM.requestOf_eq_some_iff, JSM.requestOf_eq_some_iff]
  constructor
  · rintro ⟨cli, registered, named, asks⟩
    by_cases old : cli ∈ before.clients.entries
    · exact ⟨cli, old, named, kept cli registered old ▸ asks⟩
    · rw [came cli registered old] at asks
      cases asks
  · rintro ⟨cli, registered, named, asks⟩
    by_cases stays : cli ∈ after.clients.entries
    · exact ⟨cli, stays, named, (kept cli stays registered).trans asks⟩
    · rw [gone cli registered stays] at asks
      cases asks

theorem JSM.requestOf_settle {answered : ClientID → Bool}
    (entries : ∀ cli ∈ after.clients.entries, cli ∈ before.clients.entries)
    (stays : ∀ cli ∈ before.clients.entries, ¬ answered cli.cliID → cli ∈ after.clients.entries)
    (own : ∀ cli ∈ before.clients.entries, (after.clientAt cli).openRequest =
      if answered cli.cliID then none else (before.clientAt cli).openRequest) :
    after.requestOf = fun clientID =>
      if answered clientID then none else before.requestOf clientID := by
  funext clientID
  apply Option.ext
  intro request
  rw [JSM.requestOf_eq_some_iff]
  constructor
  · rintro ⟨cli, registered, rfl, asks⟩
    have old := entries cli registered
    rw [JSM.requestOf_of_mem old, ← own cli old, asks]
  · intro asks
    split at asks
    next => cases asks
    next unanswered =>
      obtain ⟨cli, old, rfl, isRequest⟩ := (JSM.requestOf_eq_some_iff request).mp asks
      refine ⟨cli, stays cli old unanswered, rfl, ?_⟩
      rw [own cli old, if_neg unanswered, isRequest]

theorem JSM.board_of_clientView (clients : after.clientView = before.clientView) :
    after.board.requests = before.board.requests ∧ after.board.lines = before.board.lines := by
  obtain ⟨sameClients, _, clientAt, _, queues⟩ := JSM.fields_of_clientView clients
  constructor
  · funext clientID
    simp only [JSM.board, JSM.requestOf, sameClients, clientAt]
  · funext tubeName
    simp only [JSM.board, queues]

theorem JSM.board_jobs_of_records {id : JobID} {next : Option Job}
    (records : ∀ other, after.recordOf other = if other = id then next else before.recordOf other) :
    after.board.jobs = Function.update before.board.jobs id (next.map Job.plain) := by
  funext other
  simp only [JSM.board, records, Function.update_apply]
  split <;> rfl

theorem JSM.board_setJob {id : JobID} {next : Option Job}
    (clients : after.clientView = before.clientView) (maxJobID : after.maxJobID = before.maxJobID)
    (records : ∀ other, after.recordOf other = if other = id then next else before.recordOf other) :
    after.board = before.board.setJob id (next.map Job.plain) := by
  obtain ⟨requests, lines⟩ := JSM.board_of_clientView clients
  ext1
  · exact JSM.board_jobs_of_records records
  · exact maxJobID
  · exact requests
  · exact lines

theorem Moved.board {kinds : Kinds} {id : JobID} {record next : Job}
    (moved : Moved kinds id record next before after) :
    after.board = before.board.setJob id (some next.plain) :=
  JSM.board_setJob moved.frame.clients moved.frame.maxJobID moved.records

theorem Deleted.board {kinds : Kinds} {id : JobID} (deleted : Deleted kinds id before after) :
    after.board = before.board.setJob id none :=
  JSM.board_setJob deleted.frame.clients deleted.frame.maxJobID deleted.records

/-- A client that gets another clock shows nothing of it, unless it waits and is forgotten. -/
theorem Rescheduled.board {cli : CliPtr} {tickAt : Int64}
    (rescheduled : Rescheduled cli tickAt before after)
    (kept : ¬ tickAt < maxTime → (before.clientAt cli).isWaitingForResv = false) :
    after.board = before.board := by
  have content : ∀ other,
      (after.clientAt other).openRequest = (before.clientAt other).openRequest := by
    intro other
    have same := rescheduled.content other
    by_cases isCli : other = cli
    · subst other
      rw [if_pos rfl] at same
      obtain ⟨_, deadline, waiting, _, reqID⟩ := ClientResvEntry.fields_of_content_eq same
      simp only [ClientResvEntry.content] at deadline waiting reqID
      simp only [ClientResvEntry.openRequest, deadline, waiting, reqID]
    · rw [if_neg isCli] at same
      exact ClientResvEntry.openRequest_of_content same
  ext1
  · funext id
    simp only [JSM.board, rescheduled.frame.recordOf]
  · exact rescheduled.frame.maxJobID
  · apply JSM.requestOf_congr
    · exact fun other _ _ => content other
    · intro other registered fresh
      exact absurd (rescheduled.subset other registered) fresh
    · intro other registered forgotten
      rw [rescheduled.entries] at forgotten
      split at forgotten
      · exact absurd registered forgotten
      next dropped =>
        have isCli : other = cli := by
          by_contra different
          exact forgotten (List.mem_filter.mpr ⟨registered, by simpa using different⟩)
        rw [isCli, ClientResvEntry.openRequest_eq_none_iff]
        exact kept fun early => dropped (Or.inl early)
  · funext tubeName
    simp only [JSM.board, rescheduled.queues]

end Requests

/-! ## Heaps -/

section Heaps

variable {kinds : Kinds} {jsm : JSM} {key : HeapKey}

theorem JSM.board_holds_iff (job : Job) : jsm.board.Holds key job ↔
    ∃ record, jsm.recordOf record.id = some record ∧ record.home = some key ∧
      record.plain = job := by
  unfold Board.Holds
  constructor
  · rintro ⟨shown, home⟩
    obtain ⟨record, recorded, rfl⟩ := Option.map_eq_some_iff.mp shown
    exact ⟨record, recorded, home, rfl⟩
  · rintro ⟨record, recorded, home, rfl⟩
    refine ⟨?_, home⟩
    change (jsm.recordOf record.id).map Job.plain = some record.plain
    rw [recorded, Option.map_some]

/-- The jobs of an exact heap, in order, are those that the board has for it. -/
theorem JobsOk.lists_heap (inv : JobsOk kinds jsm) (isKind : kinds key.kind) :
    Lists (jsm.board.Holds key) key.sortKey
      (((jsm.heapAt key).map fun entry => (jsm.jobOf entry).plain).insertionSort
        fun first second => key.sortKey first ≤ key.sortKey second) := by
  apply lists_insertionSort
  · rintro first second ⟨firstShown, _⟩ ⟨secondShown, _⟩ same
    rw [key.id_of_sortKey same, secondShown] at firstShown
    exact (Option.some.inj firstShown).symm
  · apply (inv.tracked key).nodup.map_on
    intro first firstIn second secondIn same
    obtain ⟨_, indexed, _⟩ := inv.exact key first isKind firstIn
    have sameId : (jsm.jobOf second).id = (jsm.jobOf first).id := by
      rw [← Job.plain_id, ← same, Job.plain_id]
    exact Option.some.inj (inv.eq_entry indexed isKind secondIn sameId).1
  · intro job
    rw [JSM.board_holds_iff, List.mem_map]
    constructor
    · rintro ⟨entry, member, rfl⟩
      obtain ⟨recorded, home⟩ := inv.recordOf_jobOf key isKind member
      exact ⟨_, recorded, home, rfl⟩
    · rintro ⟨record, recorded, home, rfl⟩
      obtain ⟨entry, member, rfl⟩ := inv.exists_entry recorded home isKind
      exact ⟨entry, member, rfl⟩

theorem JobsOk.lists_inOrder (inv : JobsOk kinds jsm) (key : HeapKey) (isKind : kinds key.kind) :
    Lists (jsm.board.Holds key) key.sortKey (jsm.board.inOrder key) := by
  have lists := inv.lists_heap isKind
  unfold Board.inOrder
  rw [lists.listing_eq]
  exact lists

/-- The head of an exact heap is the first job of the board. -/
theorem JobsOk.board_first? (inv : JobsOk kinds jsm) (key : HeapKey) (isKind : kinds key.kind) :
    jsm.board.first? key = (jsm.heapAt key).head?.map fun entry => (jsm.jobOf entry).plain := by
  have lists := inv.lists_inOrder key isKind
  unfold Board.first?
  cases head : (jsm.heapAt key).head? with
  | none =>
      rw [Option.map_none, List.head?_eq_none_iff, lists.eq_nil_iff]
      intro job held
      obtain ⟨record, recorded, home, _⟩ := (JSM.board_holds_iff job).mp held
      exact inv.home_ne_of_empty key isKind (List.head?_eq_none_iff.mp head) recorded home
  | some entry =>
      obtain ⟨recorded, home⟩ := inv.recordOf_jobOf key isKind (List.mem_of_head? head)
      rw [Option.map_some, lists.head?_eq_some_iff]
      refine ⟨(JSM.board_holds_iff _).mpr ⟨_, recorded, home, rfl⟩, fun other held different => ?_⟩
      obtain ⟨record, otherRecorded, otherHome, rfl⟩ := (JSM.board_holds_iff _).mp held
      rw [Job.plain_sortKey, Job.plain_sortKey]
      apply lt_of_le_of_ne (inv.head_le key isKind head otherRecorded otherHome)
      intro same
      apply different
      rw [key.id_of_sortKey same, otherRecorded] at recorded
      rw [Option.some.inj recorded]

theorem JobsOk.board_inOrder_ready (inv : JobsOk kinds jsm) (readyExact : kinds .ready)
    (tubeName : TubeName) :
    jsm.board.inOrder (.ready tubeName) = (jsm.readyOrder tubeName).map Job.plain := by
  apply (inv.lists_inOrder (.ready tubeName) readyExact).eq
  constructor
  · rw [List.pairwise_map]
    exact (inv.readyOrder_sorted readyExact tubeName).imp fun less => by simpa using less
  · intro job
    rw [JSM.board_holds_iff, List.mem_map]
    simp only [inv.mem_readyOrder readyExact, and_assoc]

theorem JobsOk.board_firstExpiry (inv : JobsOk kinds jsm) (reservedExact : kinds .reserved)
    (clientID : ClientID) :
    (jsm.board.first? (.reserved clientID)).map (·.expiresAt) = jsm.firstExpiry clientID := by
  rw [inv.board_first? (.reserved clientID) reservedExact, Option.map_map]
  rfl

end Heaps

end Coolbeans
