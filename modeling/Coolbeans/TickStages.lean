import Coolbeans.TickClients
import Coolbeans.TickDelay

/-!
# The stages of a tick put together

The outer loop of `tickClients` attends to every client whose clock has passed,
each once.  With the delay stage and the matching stage this gives what a
whole tick does.
-/

namespace Coolbeans

open FiniteMap PositionHeap StatefulProgram

/-! ## The loop over the clients -/

/-- The listed clients have been attended to. -/
structure ClientsTicked (kinds : Kinds) (nowSecs : Int64) (processed : List CliPtr)
    (resvs : List Reservation) (before after : JSM) : Prop where
  jobs : JobsOk kinds after
  clients : ClientsOk after
  nodup : processed.Nodup
  due : ∀ cli ∈ processed, cli ∈ before.clientHeap ∧ (before.clientAt cli).tickAt < nowSecs
  entries : after.clients.entries = before.clients.entries
  others : ∀ cli, cli ∉ processed → (after.clientAt cli).content = (before.clientAt cli).content
  own : ∀ cli ∈ processed, (after.clientAt cli).content =
    { (if cli.cliID ∈ resvs.map (·.clientId) then (before.clientAt cli).idle
        else before.clientAt cli).content with
      tickAt := (after.clientAt cli).tickAt }
  late : ∀ cli ∈ processed, nowSecs ≤ (after.clientAt cli).tickAt
  heap : ∀ cli, cli ∈ after.clientHeap ↔
    if cli ∈ processed then (after.clientAt cli).tickAt < maxTime else cli ∈ before.clientHeap
  given : ∀ resv ∈ resvs, ∃ cli ∈ processed, (before.clientAt cli).isWaitingForResv = true ∧
    ∃ status, (status = .timeout ∨ status = .deadlineSoon) ∧
      resv = emptyReservation cli (before.clientAt cli).reqID status
  idsNodup : (resvs.map (·.clientId)).Nodup
  answers : kinds .reserved → ∀ resv, resv ∈ resvs ↔ ∃ cli ∈ processed,
    resv ∈ clientAnswer nowSecs cli (before.clientAt cli) (after.firstExpiry cli.cliID)
  tickAt : kinds .reserved → ∀ cli ∈ processed,
    (after.clientAt cli).tickAt = after.tickAtFor cli
  queues : ∀ tubeName, (after.waitingAt tubeName).entries =
    (before.waitingAt tubeName).entries.filter (·.cliID ∉ resvs.map (·.clientId))
  records : kinds .reserved → ∀ id, after.recordOf id =
    (before.recordOf id).map (Job.expire nowSecs (processed.map (·.cliID)))
  released : ReleasedSome before after
  nextDelayTickAt : after.nextDelayTickAt = before.nextDelayTickAt
  maxJobID : after.maxJobID = before.maxJobID

section Loop

variable {kinds : Kinds} {nowSecs : Int64} {jsm : JSM}

theorem Job.expire_nil (job : Job) : job.expire nowSecs [] = job := by
  apply if_neg
  simp

theorem ClientsTicked.nil (jobs : JobsOk kinds jsm) (clientsOk : ClientsOk jsm) :
    ClientsTicked kinds nowSecs [] [] jsm jsm where
  jobs := jobs
  clients := clientsOk
  nodup := List.nodup_nil
  due := by simp
  entries := rfl
  others := fun _ _ => rfl
  own := by simp
  late := by simp
  heap := by simp
  given := by simp
  idsNodup := List.nodup_nil
  answers := by simp
  tickAt := by simp
  queues := by simp
  records := by
    intro _ id
    cases jsm.recordOf id with
    | none => rfl
    | some record => simp [Job.expire_nil]
  released := .of_clientFrame (.refl jsm)
  nextDelayTickAt := rfl
  maxJobID := rfl

/-- The content of a client that is attended to does not depend on where its
entry stands. -/
theorem clientAnswer_congr {cli : CliPtr} {first second : ClientResvEntry}
    (same : first.content = second.content) (firstExpiry : Option Int64) :
    clientAnswer nowSecs cli first firstExpiry = clientAnswer nowSecs cli second firstExpiry := by
  obtain ⟨_, deadline, waiting, _, reqID⟩ := ClientResvEntry.fields_of_content same
  have timeout : timeoutAnswer nowSecs cli first = timeoutAnswer nowSecs cli second := by
    simp only [timeoutAnswer, deadline, waiting, reqID]
  have soon : soonAnswer nowSecs cli first firstExpiry =
      soonAnswer nowSecs cli second firstExpiry := by
    simp only [soonAnswer, waiting, reqID]
  simp only [clientAnswer, timeout, soon]

theorem ClientResvEntry.idle_content_congr {first second : ClientResvEntry}
    (same : first.content = second.content) : first.idle.content = second.idle.content := by
  obtain ⟨watched, _, _, tickAt, reqID⟩ := ClientResvEntry.fields_of_content same
  simp only [ClientResvEntry.idle, ClientResvEntry.content, watched, tickAt, reqID]

theorem ClientsTicked.firstExpiry {processed : List CliPtr} {resvs : List Reservation}
    {after : JSM} (ticked : ClientsTicked kinds nowSecs processed resvs jsm after)
    (jobs : JobsOk kinds jsm) (reservedExact : kinds .reserved) {clientID : ClientID}
    (others : clientID ∉ processed.map (·.cliID)) :
    after.firstExpiry clientID = jsm.firstExpiry clientID := by
  refine jobs.firstExpiry_congr ticked.jobs reservedExact fun id record home => ?_
  obtain ⟨isReserved, owner⟩ := (Job.home_eq_reserved_iff _ _).mp home
  rw [ticked.records reservedExact]
  constructor
  · intro recorded
    obtain ⟨old, wasRecorded, isRecord⟩ := Option.map_eq_some_iff.mp recorded
    rw [wasRecorded]
    unfold Job.expire at isRecord
    split at isRecord
    · rw [← isRecord] at isReserved
      simp [Job.released] at isReserved
    · rw [isRecord]
  · intro recorded
    rw [recorded, Option.map_some, Job.expire, if_neg]
    rintro ⟨_, listed, _⟩
    exact others (owner ▸ listed)

end Loop

/-- A client that was due has been taken off the client heap and attended to, and the listed
clients after it. -/
structure HeadTicked (kinds : Kinds) (nowSecs : Int64) (cli : CliPtr) (extra : List Reservation)
    (processed : List CliPtr) (resvs : List Reservation) (jsm first middle after : JSM) :
    Prop where
  clientsOk : ClientsOk jsm
  onHeap : cli ∈ jsm.clientHeap
  isDue : (jsm.clientAt cli).tickAt < nowSecs
  dequeued : Dequeued cli jsm first
  ticked : TickedClient kinds nowSecs cli extra first middle
  rest : ClientsTicked kinds nowSecs processed resvs middle after

namespace HeadTicked

variable {kinds : Kinds} {nowSecs : Int64} {cli other : CliPtr} {extra resvs : List Reservation}
  {processed : List CliPtr} {jsm first middle after : JSM}
  (head : HeadTicked kinds nowSecs cli extra processed resvs jsm first middle after)

include head

theorem registered : cli ∈ jsm.clients.entries :=
  head.clientsOk.inv.onHeap cli head.onHeap

theorem entries : middle.clients.entries = jsm.clients.entries := by
  rw [head.ticked.entries, head.dequeued.clients]

theorem tickAt_middle : (middle.clientAt cli).tickAt = middle.tickAtFor cli :=
  (ClientResvEntry.fields_of_content_eq head.ticked.own).2.2.2.1

theorem fresh : cli ∉ processed := by
  intro again
  have due := (head.rest.due cli again).2
  rw [head.tickAt_middle] at due
  exact Int64.not_le.mpr due head.ticked.late

theorem ne_of_mem (member : other ∈ processed) : other ≠ cli := by
  rintro rfl
  exact head.fresh member

theorem content_of_ne (different : other ≠ cli) :
    (middle.clientAt other).content = (jsm.clientAt other).content := by
  rw [head.ticked.others other different, head.dequeued.content]

theorem cliID_ne (member : other ∈ processed) : other.cliID ≠ cli.cliID := by
  intro same
  have otherRegistered : other ∈ jsm.clients.entries := by
    rw [← head.entries]
    exact head.ticked.clients.inv.onHeap other (head.rest.due other member).1
  have isHead := jsm.clients.eq_of_cliID_eq otherRegistered head.registered same
  exact head.fresh (isHead ▸ member)

theorem cliID_notMem : cli.cliID ∉ processed.map (·.cliID) := by
  intro again
  obtain ⟨other, member, same⟩ := List.mem_map.mp again
  exact head.cliID_ne member same

theorem kept : (after.clientAt cli).content = (middle.clientAt cli).content :=
  head.rest.others cli head.fresh

theorem tickAt_after : (after.clientAt cli).tickAt = middle.tickAtFor cli := by
  rw [(ClientResvEntry.fields_of_content head.kept).2.2.2.1, head.tickAt_middle]

theorem firstExpiry (reservedExact : kinds .reserved) :
    after.firstExpiry cli.cliID = middle.firstExpiry cli.cliID :=
  head.rest.firstExpiry head.ticked.jobs reservedExact head.cliID_notMem

/-! The ids that are answered: at most the one of the client, and then those of others. -/

theorem mem_extraIds (clientID : ClientID) :
    clientID ∈ extra.map (·.clientId) ↔ extra ≠ [] ∧ clientID = cli.cliID := by
  by_cases answered : extra = []
  · simp [answered]
  · obtain ⟨_, status, _, isExtra⟩ := head.ticked.answered answered
    simp [isExtra, emptyReservation]

theorem mem_laterIds {clientID : ClientID} (member : clientID ∈ resvs.map (·.clientId)) :
    clientID ∈ processed.map (·.cliID) := by
  obtain ⟨resv, inside, rfl⟩ := List.mem_map.mp member
  obtain ⟨other, isProcessed, _, status, _, rfl⟩ := head.rest.given resv inside
  exact List.mem_map.mpr ⟨other, isProcessed, rfl⟩

theorem answered_head : cli.cliID ∈ (extra ++ resvs).map (·.clientId) ↔ extra ≠ [] := by
  rw [List.map_append, List.mem_append, head.mem_extraIds]
  constructor
  · rintro (⟨answered, _⟩ | again)
    · exact answered
    · exact absurd (head.mem_laterIds again) head.cliID_notMem
  · exact fun answered => Or.inl ⟨answered, rfl⟩

theorem answered_later (later : other ∈ processed) :
    other.cliID ∈ (extra ++ resvs).map (·.clientId) ↔ other.cliID ∈ resvs.map (·.clientId) := by
  rw [List.map_append, List.mem_append, head.mem_extraIds]
  constructor
  · rintro (⟨_, same⟩ | again)
    · exact absurd same (head.cliID_ne later)
    · exact again
  · exact Or.inr

theorem idsNodup : ((extra ++ resvs).map (·.clientId)).Nodup := by
  rw [List.map_append]
  refine List.Nodup.append ?_ head.rest.idsNodup fun clientID isExtra later => ?_
  · by_cases answered : extra = []
    · simp [answered]
    · obtain ⟨_, status, _, isExtra⟩ := head.ticked.answered answered
      simp [isExtra]
  · rw [head.mem_extraIds] at isExtra
    exact head.cliID_notMem (isExtra.2 ▸ head.mem_laterIds later)

/-! What becomes of the clients. -/

theorem due (member : other ∈ cli :: processed) :
    other ∈ jsm.clientHeap ∧ (jsm.clientAt other).tickAt < nowSecs := by
  rcases List.mem_cons.mp member with rfl | later
  · exact ⟨head.onHeap, head.isDue⟩
  · obtain ⟨otherOnHeap, otherDue⟩ := head.rest.due other later
    have different := head.ne_of_mem later
    rw [head.ticked.heap, if_neg different, head.dequeued.heap] at otherOnHeap
    rw [(ClientResvEntry.fields_of_content (head.content_of_ne different)).2.2.2.1] at otherDue
    exact ⟨otherOnHeap.2, otherDue⟩

theorem own (member : other ∈ cli :: processed) :
    (after.clientAt other).content =
      { (if other.cliID ∈ (extra ++ resvs).map (·.clientId) then (jsm.clientAt other).idle
          else jsm.clientAt other).content with
        tickAt := (after.clientAt other).tickAt } := by
  rcases List.mem_cons.mp member with rfl | later
  · rw [head.kept, head.ticked.own, head.tickAt_after]
    by_cases quiet : extra = []
    · rw [if_pos quiet, if_neg (fun answered => head.answered_head.mp answered quiet),
        head.dequeued.content]
    · rw [if_neg quiet, if_pos (head.answered_head.mpr quiet),
        ClientResvEntry.idle_content_congr (head.dequeued.content other)]
  · have answered := head.answered_later later
    have wasOld := head.content_of_ne (head.ne_of_mem later)
    rw [head.rest.own other later]
    by_cases isAnswered : other.cliID ∈ resvs.map (·.clientId)
    · rw [if_pos isAnswered, if_pos (answered.mpr isAnswered),
        ClientResvEntry.idle_content_congr wasOld]
    · rw [if_neg isAnswered, if_neg (fun either => isAnswered (answered.mp either)), wasOld]

theorem late (member : other ∈ cli :: processed) : nowSecs ≤ (after.clientAt other).tickAt := by
  rcases List.mem_cons.mp member with rfl | later
  · rw [head.tickAt_after]
    exact head.ticked.late
  · exact head.rest.late other later

theorem heap : other ∈ after.clientHeap ↔
    if other ∈ cli :: processed then (after.clientAt other).tickAt < maxTime
    else other ∈ jsm.clientHeap := by
  rw [head.rest.heap, head.ticked.heap, head.dequeued.heap]
  by_cases same : other = cli
  · subst other
    rw [if_neg head.fresh, if_pos rfl, if_pos List.mem_cons_self, head.tickAt_after]
  · by_cases later : other ∈ processed
    · rw [if_pos later, if_pos (List.mem_cons_of_mem _ later)]
    · rw [if_neg later, if_neg same, if_neg]
      · exact and_iff_right same
      · exact fun either => (List.mem_cons.mp either).elim same later

theorem tickAt (reservedExact : kinds .reserved) (member : other ∈ cli :: processed) :
    (after.clientAt other).tickAt = after.tickAtFor other := by
  rcases List.mem_cons.mp member with rfl | later
  · obtain ⟨_, deadline, waiting, _⟩ := ClientResvEntry.fields_of_content head.kept
    rw [head.tickAt_after]
    simp only [JSM.tickAtFor, nextClientTickAt, deadline, waiting, head.firstExpiry reservedExact]
  · exact head.rest.tickAt reservedExact other later

theorem queues (tubeName : TubeName) : (after.waitingAt tubeName).entries =
    (jsm.waitingAt tubeName).entries.filter
      (·.cliID ∉ (extra ++ resvs).map (·.clientId)) := by
  rw [head.rest.queues, head.ticked.queues, head.dequeued.queues]
  by_cases answered : extra = []
  · rw [if_pos answered, answered, List.nil_append]
  · rw [if_neg answered, List.filter_filter]
    apply List.filter_congr
    intro other queued
    have otherRegistered := (head.clientsOk.waiting_of_queued queued).1
    have sameIff : other = cli ↔ other.cliID = cli.cliID :=
      ⟨congrArg _, jsm.clients.eq_of_cliID_eq otherRegistered head.registered⟩
    rw [Bool.eq_iff_iff]
    simp only [Bool.and_eq_true, decide_eq_true_eq, List.map_append, List.mem_append,
      head.mem_extraIds, sameIff, ne_eq, not_or]
    tauto

/-! The answers. -/

theorem given {resv : Reservation} (member : resv ∈ extra ++ resvs) :
    ∃ other ∈ cli :: processed, (jsm.clientAt other).isWaitingForResv = true ∧
      ∃ status, (status = .timeout ∨ status = .deadlineSoon) ∧
        resv = emptyReservation other (jsm.clientAt other).reqID status := by
  rcases List.mem_append.mp member with isExtra | later
  · obtain ⟨waiting, status, unmatched, isResv⟩ :=
      head.ticked.answered (List.ne_nil_of_mem isExtra)
    rw [isResv, List.mem_singleton] at isExtra
    obtain ⟨_, _, wasWaiting, _, reqID⟩ :=
      ClientResvEntry.fields_of_content (head.dequeued.content cli)
    rw [wasWaiting] at waiting
    rw [reqID] at isExtra
    exact ⟨cli, List.mem_cons_self, waiting, status, unmatched, isExtra⟩
  · obtain ⟨other, isProcessed, waiting, status, unmatched, isResv⟩ := head.rest.given resv later
    obtain ⟨_, _, wasWaiting, _, reqID⟩ :=
      ClientResvEntry.fields_of_content (head.content_of_ne (head.ne_of_mem isProcessed))
    rw [wasWaiting] at waiting
    rw [reqID] at isResv
    exact ⟨other, List.mem_cons_of_mem _ isProcessed, waiting, status, unmatched, isResv⟩

theorem answers (reservedExact : kinds .reserved) (resv : Reservation) :
    resv ∈ extra ++ resvs ↔ ∃ other ∈ cli :: processed,
      resv ∈ clientAnswer nowSecs other (jsm.clientAt other)
        (after.firstExpiry other.cliID) := by
  have old : ∀ other ∈ processed, (middle.clientAt other).content = (jsm.clientAt other).content :=
    fun other member => head.content_of_ne (head.ne_of_mem member)
  rw [List.mem_append, head.rest.answers reservedExact, head.ticked.answer,
    clientAnswer_congr (head.dequeued.content cli), ← head.firstExpiry reservedExact]
  constructor
  · rintro (isExtra | ⟨other, member, isAnswer⟩)
    · exact ⟨cli, List.mem_cons_self, isExtra⟩
    · rw [clientAnswer_congr (old other member)] at isAnswer
      exact ⟨other, List.mem_cons_of_mem _ member, isAnswer⟩
  · rintro ⟨other, member, isAnswer⟩
    rcases List.mem_cons.mp member with rfl | later
    · exact Or.inl isAnswer
    · rw [← clientAnswer_congr (old other later)] at isAnswer
      exact Or.inr ⟨other, later, isAnswer⟩

theorem clientsTicked :
    ClientsTicked kinds nowSecs (cli :: processed) (extra ++ resvs) jsm after where
  jobs := head.rest.jobs
  clients := head.rest.clients
  nodup := List.nodup_cons.mpr ⟨head.fresh, head.rest.nodup⟩
  due _ member := head.due member
  entries := head.rest.entries.trans head.entries
  others := by
    intro other outside
    rw [List.mem_cons, not_or] at outside
    rw [head.rest.others other outside.2, head.content_of_ne outside.1]
  own _ member := head.own member
  late _ member := head.late member
  heap _ := head.heap
  given _ member := head.given member
  idsNodup := head.idsNodup
  answers := head.answers
  tickAt reservedExact _ member := head.tickAt reservedExact member
  queues := head.queues
  records := by
    intro reservedExact id
    rw [head.rest.records reservedExact, head.ticked.records reservedExact,
      head.dequeued.frame.recordOf, Option.map_map]
    congr 1
    funext job
    exact Job.expire_append _ _ job
  released :=
    ((ReleasedSome.of_clientFrame head.dequeued.frame).trans head.ticked.released).trans
      head.rest.released
  nextDelayTickAt := head.rest.nextDelayTickAt.trans
    (head.ticked.nextDelayTickAt.trans head.dequeued.frame.nextDelayTickAt)
  maxJobID :=
    head.rest.maxJobID.trans (head.ticked.maxJobID.trans head.dequeued.frame.maxJobID)

end HeadTicked

/-! ## The loop ends -/

section Ends

variable {kinds : Kinds} {nowSecs : Int64} {jsm : JSM}

/-- The clients on the heap whose clock has passed. -/
def JSM.dueClients (jsm : JSM) (nowSecs : Int64) : List CliPtr :=
  jsm.clientHeap.filter fun cli => (jsm.clientAt cli).tickAt < nowSecs

theorem tickAt_le_of_clientSortKey_le {clientAt : CliPtr → ClientResvEntry} {first second : CliPtr}
    (le : clientSortKey clientAt first ≤ clientSortKey clientAt second) :
    (clientAt first).tickAt ≤ (clientAt second).tickAt := by
  simp only [clientSortKey, Prod.Lex.toLex_le_toLex] at le
  rw [Int64.le_iff_toInt_le]
  omega

theorem TickedClient.dueClients_lt {cli : CliPtr} {extra : List Reservation} {first middle : JSM}
    (ticked : TickedClient kinds nowSecs cli extra first middle) (dequeued : Dequeued cli jsm first)
    (onHeap : cli ∈ jsm.clientHeap) (isDue : (jsm.clientAt cli).tickAt < nowSecs) :
    (middle.dueClients nowSecs).length < (jsm.dueClients nowSecs).length := by
  have notDue : cli ∉ middle.dueClients nowSecs := by
    unfold JSM.dueClients
    rw [List.mem_filter, decide_eq_true_eq,
      (ClientResvEntry.fields_of_content_eq ticked.own).2.2.2.1]
    exact fun inside => Int64.not_le.mpr inside.2 ticked.late
  have subset : cli :: middle.dueClients nowSecs ⊆ jsm.dueClients nowSecs := by
    intro other member
    unfold JSM.dueClients at member ⊢
    rw [List.mem_filter, decide_eq_true_eq]
    rcases List.mem_cons.mp member with rfl | later
    · exact ⟨onHeap, isDue⟩
    · have different : other ≠ cli := by
        rintro rfl
        exact notDue later
      rw [List.mem_filter, decide_eq_true_eq, ticked.heap, if_neg different, dequeued.heap,
        (ClientResvEntry.fields_of_content (ticked.others other different)).2.2.2.1,
        (ClientResvEntry.fields_of_content (dequeued.content other)).2.2.2.1] at later
      exact ⟨later.1.2, later.2⟩
  have nodup : (cli :: middle.dueClients nowSecs).Nodup :=
    List.nodup_cons.mpr ⟨notDue, ticked.clients.inv.tracked.nodup.filter _⟩
  have shorter := (List.subperm_of_subset nodup subset).length_le
  rw [List.length_cons] at shorter
  omega

theorem ends_tickClientsLoop (jobs : JobsOk kinds jsm) (clientsOk : ClientsOk jsm) (rounds : Nat)
    (result : List Reservation) (enough : (jsm.dueClients nowSecs).length < rounds) :
    (tickClientsLoop nowSecs rounds result jsm).Ends
      (fun resvs after => ∃ processed extra, resvs = result ++ extra ∧
        ClientsTicked kinds nowSecs processed extra jsm after ∧
        ∀ cli ∈ after.clientHeap, nowSecs ≤ (after.clientAt cli).tickAt)
      (fun _ _ => False) (¬ kinds .reserved) := by
  induction rounds generalizing jsm result with
  | zero => omega
  | succ rounds induction =>
  cases head : jsm.clientHeap.head? with
  | none =>
      rw [tickClientsLoop_of_none head]
      refine ⟨[], [], by simp, .nil jobs clientsOk, ?_⟩
      rw [List.head?_eq_none_iff.mp head]
      simp
  | some cli =>
  by_cases early : nowSecs ≤ (jsm.clientAt cli).tickAt
  · rw [tickClientsLoop_of_early head early]
    refine ⟨[], [], by simp, .nil jobs clientsOk, fun other member => ?_⟩
    exact Int64.le_trans early
      (tickAt_le_of_clientSortKey_le (clientsOk.inv.ordered.head_le head member))
  · have isDue := Int64.not_le.mp early
    have onHeap := List.mem_of_head? head
    rw [tickClientsLoop_of_due head isDue]
    refine Prog.ends_bind ((ends_clientHeapDequeue clientsOk.inv head).mono
      (fun _ _ holds => holds) (fun _ _ => False.elim) False.elim) ?_
    rintro first taken ⟨isFirst, invTaken, dequeued⟩
    rw [isFirst]
    have registered : cli ∈ taken.clients.entries := by
      rw [dequeued.clients]
      exact clientsOk.inv.onHeap cli onHeap
    have offHeap : cli ∉ taken.clientHeap := by
      rw [dequeued.heap]
      exact fun inside => inside.1 rfl
    refine Prog.ends_bind ((ends_tickClient (jobs.of_clientFrame dequeued.frame)
      (dequeued.clientsOk clientsOk invTaken) registered offHeap result).mono
      (fun _ _ holds => holds) (fun _ _ => False.elim) fun holds => holds) ?_
    rintro _ middle ⟨extra, rfl, ticked⟩
    have fewer := ticked.dueClients_lt dequeued onHeap isDue
    refine (induction ticked.jobs ticked.clients _ (by omega)).mono ?_ (fun _ _ => False.elim)
      fun holds => holds
    rintro _ after ⟨processed, resvs, rfl, rest, finished⟩
    have head := HeadTicked.mk clientsOk onHeap isDue dequeued ticked rest
    exact ⟨cli :: processed, extra ++ resvs, List.append_assoc _ _ _, head.clientsTicked,
      finished⟩

theorem ends_tickClients (jobs : JobsOk kinds jsm) (clientsOk : ClientsOk jsm) :
    (tickClients nowSecs jsm).Ends
      (fun resvs after => ∃ processed,
        ClientsTicked kinds nowSecs processed resvs jsm after ∧
        ∀ cli ∈ after.clientHeap, nowSecs ≤ (after.clientAt cli).tickAt)
      (fun _ _ => False) (¬ kinds .reserved) := by
  unfold tickClients
  rw [Prog.gets_bind]
  refine (ends_tickClientsLoop jobs clientsOk _ [] ?_).mono ?_ (fun _ _ => False.elim)
    fun holds => holds
  · exact Nat.lt_succ_of_le (List.length_filter_le _ _)
  · rintro resvs after ⟨processed, extra, rfl, ticked, finished⟩
    exact ⟨processed, ticked, finished⟩

end Ends

/-! ## The whole tick -/

/-- What a tick does: the states between its stages, the matches it makes and
the clients it attends to. -/
structure TickDone (kinds : Kinds) (nowSecs : Int64) (walk : TubeWalk)
    (matched : List (CliPtr × Job)) (processed : List CliPtr) (answers : List Reservation)
    (before woken served after : JSM) : Prop where
  delay : DelayDone kinds nowSecs before woken
  order : matched = WaitingLine.serve woken.readyOrder (walk.ready woken.tubes.keys)
    (fun tubeName => (woken.waitingAt tubeName).entries)
  ready : ServedAll kinds nowSecs matched woken served
  clients : ClientsTicked kinds nowSecs processed answers served after
  finished : ∀ cli ∈ after.clientHeap, nowSecs ≤ (after.clientAt cli).tickAt

theorem ends_tick {kinds : Kinds} {nowSecs : Int64} {jsm : JSM}
    (jobs : JobsOk kinds jsm) (clientsOk : ClientsOk jsm) (readyExact : kinds .ready)
    (delayedExact : kinds .delayed) (walk : TubeWalk) :
    (tick nowSecs walk jsm).Ends
      (fun resvs after => ∃ matched processed answers woken served,
        TickDone kinds nowSecs walk matched processed answers jsm woken served after ∧
        resvs = matchedReservations jsm matched ++ answers)
      (fun _ _ => False) (¬ kinds .reserved) := by
  unfold tick
  refine Prog.ends_bind ((ends_tickDelayStage jobs delayedExact walk).mono
    (fun _ _ holds => holds) (fun _ _ => False.elim) False.elim) ?_
  rintro _ woken delay
  have wokenClients := clientsOk.of_clientView delay.clients
  refine Prog.ends_bind ((ends_tickReadyJobs delay.jobs wokenClients readyExact walk).mono
    (fun _ _ holds => holds) (fun _ _ => False.elim) False.elim) ?_
  rintro _ served ⟨matched, order, ready, rfl⟩
  refine Prog.ends_bind ((ends_tickClients ready.jobs ready.clients).mono
    (fun _ _ holds => holds) (fun _ _ => False.elim) fun holds => holds) ?_
  rintro answers after ⟨processed, ticked, finished⟩
  refine ⟨matched, processed, answers, woken, served, ⟨delay, order, ready, ticked, finished⟩, ?_⟩
  have sameClients : woken.clientAt = jsm.clientAt :=
    (JSM.fields_of_clientView delay.clients).2.2.1
  simp only [matchedReservations, sameClients]

end Coolbeans
