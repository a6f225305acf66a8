import Coolbeans.ClientReservationQueue
import Mathlib.Data.List.Induction

/-!
# Histories of client queues

`clientResvQueue` through any sequence of its operations, from the moment it is new.  The
map and the list hold the same entries; who is in the queue, and in which order, can be
told from the history alone: those that were enqueued and have not been removed since,
first come first.
-/

namespace Coolbeans

/-- The operations on a client queue. -/
inductive QueueOp where
  | enqueue (entry : CliPtr)
  | remove (entry : CliPtr)
  | dequeue
  deriving DecidableEq, Repr

/-- The queue after an operation; one that returns an error changes nothing, and `Dequeue`
only looks. -/
def QueueOp.apply (queue : ClientResvQueue) : QueueOp → ClientResvQueue
  | .enqueue entry => (queue.enqueue entry).toOption.getD queue
  | .remove entry => (queue.remove entry).toOption.getD queue
  | .dequeue => queue

/-- The queue after a sequence of operations. -/
def queueAfter (ops : List QueueOp) : ClientResvQueue :=
  ops.foldl QueueOp.apply .empty

/-- The entry was enqueued by the operation at `time`, without an error, and no later
operation has removed its client. -/
structure PresentSince (ops : List QueueOp) (time : Nat) (entry : CliPtr) : Prop where
  enqueued : ops[time]? = some (.enqueue entry)
  accepted : ∃ after, (queueAfter (ops.take time)).enqueue entry = .ok after
  kept : ∀ later, time < later → ∀ other, ops[later]? = some (.remove other) →
    other.cliID ≠ entry.cliID

theorem queueAfter_snoc (ops : List QueueOp) (op : QueueOp) :
    queueAfter (ops ++ [op]) = op.apply (queueAfter ops) := by
  simp [queueAfter]

/-! ## What an operation does to the entries -/

namespace ClientResvQueue

variable (queue : ClientResvQueue)

theorem remove_congr {first second : CliPtr} (same : first.cliID = second.cliID) :
    queue.remove first = queue.remove second := by
  rcases first with ⟨id, addr⟩
  rcases second with ⟨_, other⟩
  cases same
  rfl

theorem entries_of_remove {entry : CliPtr} {after : ClientResvQueue}
    (removes : queue.remove entry = .ok after) :
    after.entries = queue.entries.filter fun other => other.cliID ≠ entry.cliID := by
  by_cases present : ∃ member ∈ queue.entries, member.cliID = entry.cliID
  · obtain ⟨member, inQueue, same⟩ := present
    obtain ⟨next, removed, entries⟩ := queue.remove_of_mem inQueue
    rw [← queue.remove_congr same, removed] at removes
    cases removes
    rw [entries, ← same]
    apply List.filter_congr
    intro other otherIn
    rw [decide_eq_decide]
    exact not_congr ⟨congrArg CliPtr.cliID, queue.eq_of_cliID_eq otherIn inQueue⟩
  · push Not at present
    rw [queue.remove_of_absent present] at removes
    cases removes

end ClientResvQueue

theorem entries_apply_remove (queue : ClientResvQueue) (entry : CliPtr) :
    ((QueueOp.remove entry).apply queue).entries =
      queue.entries.filter fun other => other.cliID ≠ entry.cliID := by
  cases removes : queue.remove entry with
  | ok after =>
      rw [← queue.entries_of_remove removes]
      simp [QueueOp.apply, removes, Except.toOption]
  | error error =>
      have absent : ∀ other ∈ queue.entries, other.cliID ≠ entry.cliID := by
        intro other member same
        obtain ⟨after, removed, _⟩ := queue.remove_of_mem member
        rw [queue.remove_congr same, removes] at removed
        cases removed
      rw [List.filter_eq_self.mpr (by simpa using absent)]
      simp [QueueOp.apply, removes, Except.toOption]

theorem entries_apply_enqueue (queue : ClientResvQueue) (entry : CliPtr) :
    (∃ after, queue.enqueue entry = .ok after) ∧
        ((QueueOp.enqueue entry).apply queue).entries = queue.entries ++ [entry] ∨
      (¬ ∃ after, queue.enqueue entry = .ok after) ∧
        (QueueOp.enqueue entry).apply queue = queue := by
  by_cases absent : ∀ other ∈ queue.entries, other.cliID ≠ entry.cliID
  · obtain ⟨after, enqueued, entries⟩ := queue.enqueue_of_absent entry absent
    left
    refine ⟨⟨after, enqueued⟩, ?_⟩
    simpa [QueueOp.apply, enqueued, Except.toOption] using entries
  · push Not at absent
    obtain ⟨other, member, same⟩ := absent
    have refused := queue.enqueue_of_present member same
    right
    simp [QueueOp.apply, refused, Except.toOption]

/-! ## Entries and the times they came at -/

theorem PresentSince.lt_length {ops : List QueueOp} {time : Nat} {entry : CliPtr}
    (present : PresentSince ops time entry) : time < ops.length :=
  (List.getElem?_eq_some_iff.mp present.enqueued).1

/-- Who is there after one more operation: those that were and are not removed by it, and
the one that it lets in. -/
theorem presentSince_snoc {ops : List QueueOp} {op : QueueOp} {time : Nat} {entry : CliPtr} :
    PresentSince (ops ++ [op]) time entry ↔
      (PresentSince ops time entry ∧ ∀ other, op = .remove other → other.cliID ≠ entry.cliID) ∨
        (time = ops.length ∧ op = .enqueue entry ∧
          ∃ after, (queueAfter ops).enqueue entry = .ok after) := by
  constructor
  · rintro ⟨enqueued, accepted, kept⟩
    rcases Nat.lt_trichotomy time ops.length with before | now | after
    · left
      rw [List.getElem?_append_left before] at enqueued
      rw [List.take_append_of_le_length before.le] at accepted
      refine ⟨⟨enqueued, accepted, ?_⟩, ?_⟩
      · intro later since other removes
        have bound := (List.getElem?_eq_some_iff.mp removes).1
        exact kept later since other (by rwa [List.getElem?_append_left bound])
      · intro other isRemove
        exact kept ops.length before other (by simp [isRemove])
    · subst now
      right
      refine ⟨rfl, by simpa using enqueued, by simpa using accepted⟩
    · rw [List.getElem?_eq_none (by simp; omega)] at enqueued
      cases enqueued
  · rintro (⟨⟨enqueued, accepted, kept⟩, stays⟩ | ⟨rfl, rfl, accepted⟩)
    · have before := (List.getElem?_eq_some_iff.mp enqueued).1
      refine ⟨by rwa [List.getElem?_append_left before], ?_, ?_⟩
      · rwa [List.take_append_of_le_length before.le]
      · intro later since other removes
        by_cases old : later < ops.length
        · rw [List.getElem?_append_left old] at removes
          exact kept later since other removes
        · have bound := (List.getElem?_eq_some_iff.mp removes).1
          have last : later = ops.length := by
            simp only [List.length_append, List.length_singleton] at bound
            omega
          exact stays other (by simpa [last] using removes)
    · refine ⟨by simp, by simpa using accepted, ?_⟩
      intro later since other removes
      rw [List.getElem?_eq_none (by simp; omega)] at removes
      cases removes

/-- The entries of a queue with the times they came at, in order. -/
structure Stamped (ops : List QueueOp) (queue : ClientResvQueue) (stamps : List (Nat × CliPtr)) :
    Prop where
  entries : queue.entries = stamps.map (·.2)
  increasing : stamps.Pairwise fun first second => first.1 < second.1
  present : ∀ time entry, (time, entry) ∈ stamps ↔ PresentSince ops time entry

namespace Stamped

variable {ops : List QueueOp} {queue : ClientResvQueue} {stamps : List (Nat × CliPtr)}

theorem unchanged (stamped : Stamped ops queue stamps) {op : QueueOp}
    (removesNobody : ∀ other, op ≠ .remove other)
    (letsNobodyIn : ∀ entry, op = .enqueue entry →
      ¬ ∃ after, (queueAfter ops).enqueue entry = .ok after) :
    Stamped (ops ++ [op]) queue stamps := by
  refine ⟨stamped.entries, stamped.increasing, fun time entry => ?_⟩
  rw [stamped.present, presentSince_snoc]
  constructor
  · intro present
    exact .inl ⟨present, fun other isRemove => absurd isRemove (removesNobody other)⟩
  · rintro (⟨present, _⟩ | ⟨_, isEnqueue, accepted⟩)
    · exact present
    · exact absurd accepted (letsNobodyIn entry isEnqueue)

theorem enqueue (stamped : Stamped ops (queueAfter ops) stamps) (entry : CliPtr) :
    ∃ stamps, Stamped (ops ++ [.enqueue entry]) (queueAfter (ops ++ [.enqueue entry])) stamps := by
  rw [queueAfter_snoc]
  rcases entries_apply_enqueue (queueAfter ops) entry with ⟨accepted, entries⟩ | ⟨refused, same⟩
  · refine ⟨stamps ++ [(ops.length, entry)], ?_, ?_, ?_⟩
    · rw [entries, stamped.entries]
      simp
    · rw [List.pairwise_append]
      refine ⟨stamped.increasing, by simp, ?_⟩
      rintro ⟨time, other⟩ old last isLast
      rw [List.mem_singleton.mp isLast]
      exact ((stamped.present time other).mp old).lt_length
    · intro time other
      rw [List.mem_append, stamped.present, presentSince_snoc]
      constructor
      · rintro (present | last)
        · exact .inl ⟨present, by simp⟩
        · obtain ⟨rfl, rfl⟩ := Prod.mk.inj (List.mem_singleton.mp last)
          exact .inr ⟨rfl, rfl, accepted⟩
      · rintro (⟨present, _⟩ | ⟨rfl, isEnqueue, _⟩)
        · exact .inl present
        · cases isEnqueue
          exact .inr (by simp)
  · rw [same]
    refine ⟨stamps, stamped.unchanged (by simp) ?_⟩
    rintro other isEnqueue
    cases isEnqueue
    exact refused

theorem remove (stamped : Stamped ops (queueAfter ops) stamps) (entry : CliPtr) :
    Stamped (ops ++ [.remove entry]) (queueAfter (ops ++ [.remove entry]))
      (stamps.filter fun stamp => stamp.2.cliID ≠ entry.cliID) := by
  refine ⟨?_, stamped.increasing.filter _, fun time other => ?_⟩
  · rw [queueAfter_snoc, entries_apply_remove, stamped.entries, List.filter_map]
    rfl
  · rw [List.mem_filter, stamped.present, presentSince_snoc]
    constructor
    · rintro ⟨present, different⟩
      refine .inl ⟨present, ?_⟩
      rintro _ ⟨⟩
      exact Ne.symm (by simpa using different)
    · rintro (⟨present, stays⟩ | ⟨_, isEnqueue, _⟩)
      · exact ⟨present, by simpa using (stays entry rfl).symm⟩
      · cases isEnqueue

theorem dequeue_iff (stamped : Stamped ops queue stamps) (entry : CliPtr) :
    queue.dequeue = .ok entry ↔ ∃ time, PresentSince ops time entry ∧
      ∀ otherTime other, PresentSince ops otherTime other → time ≤ otherTime := by
  rw [queue.dequeue_eq, stamped.entries]
  have present := stamped.present
  have increasing := stamped.increasing
  cases stamps with
  | nil =>
      simp only [List.not_mem_nil, false_iff] at present
      simp [present]
  | cons first rest =>
      rcases first with ⟨firstTime, first⟩
      have came := (present firstTime first).mp List.mem_cons_self
      have firstCome : ∀ time other, PresentSince ops time other → firstTime ≤ time := by
        intro time other isThere
        rcases List.mem_cons.mp ((present time other).mpr isThere) with same | later
        · exact (congrArg Prod.fst same).ge
        · exact (List.rel_of_pairwise_cons increasing later).le
      simp only [List.map_cons, List.head?_cons, Except.ok.injEq]
      constructor
      · rintro rfl
        exact ⟨firstTime, came, firstCome⟩
      · rintro ⟨time, isThere, earliest⟩
        -- one operation enqueues one entry
        have sameTime := Nat.le_antisymm (earliest firstTime first came)
          (firstCome time entry isThere)
        have sameOp := came.enqueued
        rw [← sameTime, isThere.enqueued] at sameOp
        cases sameOp
        rfl

end Stamped

theorem exists_stamped (ops : List QueueOp) : ∃ stamps, Stamped ops (queueAfter ops) stamps := by
  induction ops using List.reverseRecOn with
  | nil =>
      refine ⟨[], rfl, .nil, fun time entry => ?_⟩
      simp only [List.not_mem_nil, false_iff]
      intro present
      exact absurd present.lt_length (by simp)
  | append_singleton ops op induction =>
      obtain ⟨stamps, stamped⟩ := induction
      cases op with
      | enqueue entry => exact stamped.enqueue entry
      | remove entry => exact ⟨_, stamped.remove entry⟩
      | dequeue =>
          rw [queueAfter_snoc]
          exact ⟨stamps, stamped.unchanged (by simp) (by simp)⟩

/-! ## The queue and its history -/

/-- The map and the list of a queue hold the same entries, each client once, and find,
dequeue and remove them by their history. -/
structure IndexedFifo (ops : List QueueOp) (queue : ClientResvQueue) : Prop where
  indexed : ∀ id elem, queue.m.lookup id = some elem ↔ elem ∈ queue.l ∧ elem.value.cliID = id
  once : (queue.l.map (·.value.cliID)).Nodup
  len : queue.len = queue.l.length
  finds : ∀ id entry, queue.find id = .ok entry ↔
    entry.cliID = id ∧ ∃ time, PresentSince ops time entry
  earliest : ∀ entry, queue.dequeue = .ok entry ↔
    ∃ time, PresentSince ops time entry ∧
      ∀ otherTime other, PresentSince ops otherTime other → time ≤ otherTime
  removes : ∀ entry after, queue.remove entry = .ok after →
    after.entries = queue.entries.filter fun other => other.cliID ≠ entry.cliID

/-- A client that comes again after its removal stands behind the others. -/
example :
    (queueAfter [.enqueue ⟨[7], 0⟩, .enqueue ⟨[8], 1⟩, .enqueue ⟨[7], 2⟩, .remove ⟨[7], 5⟩,
      .dequeue, .enqueue ⟨[7], 2⟩]).entries = [⟨[8], 1⟩, ⟨[7], 2⟩] := by
  decide +kernel

end Coolbeans
