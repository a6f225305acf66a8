import Coolbeans.CommandReplies

/-!
# Connections and the command processor

The system of the command processor and its connections.  Each connection runs
`dispatchCommand`: it sends a request and then receives responses until a final one comes;
after `Quit` it sends nothing more.  The channels are unbuffered, so a response is received
as it is sent, and a response that its connection does not wait for blocks the loop of the
processor for ever.

This file has the system, and the part of its invariant that speaks of the connections,
the requests and the responses alone.
-/

namespace Coolbeans

open FiniteMap StatefulProgram

/-! ## The system -/

/-- What a connection is at: nothing, waiting for responses to a request, or stopped. -/
inductive ConnPhase where
  | idle
  | awaiting (req : CmdRequest)
  | stopped
  deriving DecidableEq

/-- What the loop of `dispatchCommand` goes on with after the final response. -/
def CmdRequest.donePhase (req : CmdRequest) : ConnPhase :=
  if req.cmdType = .quit then .stopped else .idle

/-- The connections by the ids of their clients. -/
abbrev Conns := ClientID → Option ConnPhase

/-- A connection receives a response.  There is no result if it does not wait for one: the
sender is blocked. -/
def Conns.receive (conns : Conns) (sent : Sent) : Option Conns :=
  match conns sent.channel with
  | some (.awaiting req) =>
      some (if sent.resp.hasMore then conns
        else Function.update conns sent.channel (some req.donePhase))
  | _ => none

/-- The processor and its connections, with the requests and the responses so far. -/
structure CmdSystem where
  proc : CmdProcessor
  conns : Conns
  requests : List CmdRequest
  log : List Sent

/-- What can happen: a client connects, a connection dispatches a command, the ticker
fires.  The ids of clients and requests are drawn when they are made. -/
inductive CmdEvent where
  | connect (id : ClientID)
  | dispatch (reqID : ReqID) (cmdData : CmdData) (clientID : ClientID) (env : RequestEnv)
  | tick (now : Int64) (walk : TubeWalk)

namespace CmdSystem

/-- The system at its start. -/
def start (maxReserveTimeoutSecs : Int64) : CmdSystem where
  proc :=
    { clients := .empty
      jsm := newJSM
      maxReserveTimeoutSecs
      outbox := []
      closed := [] }
  conns := fun _ => none
  requests := []
  log := []

/-- The event can happen: the ids are new and not empty, the connection has no request that
is not answered, and the clock is in Unix seconds. -/
def Enabled (s : CmdSystem) : CmdEvent → Prop
  | .connect id => id ≠ [] ∧ s.conns id = none
  | .dispatch reqID _ clientID env =>
      s.conns clientID = some .idle ∧ (∀ old ∈ s.requests, old.id ≠ reqID) ∧
        env.now.toInt < 2 ^ 62
  | .tick now _ => now.toInt < 2 ^ 62

instance (s : CmdSystem) (event : CmdEvent) : Decidable (s.Enabled event) :=
  match event with
  | .connect _ | .dispatch _ _ _ _ => inferInstanceAs (Decidable (_ ∧ _))
  | .tick now _ => inferInstanceAs (Decidable (now.toInt < 2 ^ 62))

/-- One round of the loop of the processor, with the responses received.  There is no
result if the round panics or blocks. -/
def round (s : CmdSystem) (body : CmdProg Unit) : Option CmdSystem :=
  match body { s.proc with outbox := [] } with
  | .ok _ proc =>
      (proc.outbox.foldlM Conns.receive s.conns).map fun conns =>
        { s with proc, conns, log := s.log ++ proc.outbox }
  | .err _ _ | .panic _ => none

/-- A connection sends a request. -/
def ask (s : CmdSystem) (req : CmdRequest) : CmdSystem :=
  { s with
    conns := Function.update s.conns req.clientID (some (.awaiting req))
    requests := s.requests ++ [req] }

/-- What an event does.  A command that makes no request is answered by the connection. -/
def react (s : CmdSystem) : CmdEvent → Option CmdSystem
  | .connect id =>
      some
        { s with
          proc := { s.proc with clients := s.proc.clients.set (newClient id defaultTubeName) }
          conns := Function.update s.conns id (some .idle) }
  | .dispatch reqID cmdData clientID env =>
      match newCmdRequest reqID cmdData clientID with
      | .error _ => some s
      | .ok req => (s.ask req).round (CmdProcessor.processRequest env req)
  | .tick now walk => s.round (CmdProcessor.runTick now walk)

/-- The states that the system can reach. -/
inductive Reached (maxReserveTimeoutSecs : Int64) : CmdSystem → Prop where
  | start : Reached maxReserveTimeoutSecs (start maxReserveTimeoutSecs)
  | next {s after : CmdSystem} {event : CmdEvent} (reached : Reached maxReserveTimeoutSecs s)
      (enabled : s.Enabled event) (reacts : s.react event = some after) :
      Reached maxReserveTimeoutSecs after

end CmdSystem

/-! ## Requests and responses -/

/-- The requests and the responses agree with what the connections wait for. -/
structure ConnsOk (conns : Conns) (requests : List CmdRequest) (log : List Sent) : Prop where
  /-- The ids of the requests are distinct. -/
  ids : (requests.map (·.id)).Nodup
  /-- A request that is waited for has no final response. -/
  awaiting : ∀ clientID req, conns clientID = some (.awaiting req) →
    req ∈ requests ∧ req.clientID = clientID ∧
      ∀ sent ∈ log, sent.resp.hasMore = false → sent.resp.requestID ≠ req.id
  /-- A request that is not waited for has one. -/
  answered : ∀ req ∈ requests, conns req.clientID = some (.awaiting req) ∨
    ∃ sent ∈ log, sent.resp.hasMore = false ∧ sent.resp.requestID = req.id
  /-- A response goes to the client of its request. -/
  addressed : ∀ sent ∈ log, ∃ req ∈ requests, sent.AddressedTo req.clientID req.id
  /-- No two final responses are to one request. -/
  once : ((log.filter fun sent => !sent.resp.hasMore).map (·.resp.requestID)).Nodup

section Conns

variable {conns : Conns} {requests : List CmdRequest} {log : List Sent} {req : CmdRequest}
  {clientID : ClientID} {reqID : ReqID} {outbox : List Sent}

theorem Replies.received (replies : Replies clientID reqID outbox)
    (awaiting : conns clientID = some (.awaiting req)) :
    outbox.foldlM Conns.receive conns =
      some (Function.update conns clientID (some req.donePhase)) := by
  obtain ⟨partials, final, rfl, hasMore, isFinal⟩ := replies.last
  have received : ∀ sent ∈ partials ++ [final], conns.receive sent =
      some (if sent.resp.hasMore then conns
        else Function.update conns clientID (some req.donePhase)) := by
    intro sent member
    unfold Conns.receive
    rw [(replies.addressed sent member).1, awaiting]
  have waits : partials.foldlM Conns.receive conns = some conns := by
    clear replies isFinal
    induction partials with
    | nil => rfl
    | cons sent partials induction =>
        rw [List.foldlM_cons, received sent (by simp), hasMore sent (by simp)]
        apply induction
        · exact fun other member => hasMore other (List.mem_cons_of_mem _ member)
        · intro other member
          apply received
          rw [List.cons_append]
          exact List.mem_cons_of_mem _ member
  rw [List.foldlM_append, waits]
  change ([final].foldlM Conns.receive conns) = _
  rw [List.foldlM_cons, received final (by simp), isFinal]
  rfl

/-- Only one of the responses to a request is final. -/
theorem Replies.finals (replies : Replies clientID reqID outbox) :
    (outbox.filter fun sent => !sent.resp.hasMore).map (·.resp.requestID) = [reqID] := by
  obtain ⟨partials, final, rfl, hasMore, isFinal⟩ := replies.last
  have none : partials.filter (fun sent => !sent.resp.hasMore) = [] := by
    rw [List.filter_eq_nil_iff]
    intro sent member
    simp [hasMore sent member]
  rw [List.filter_append, none]
  simp [isFinal, (replies.addressed final (by simp)).2.1]

theorem ConnsOk.eq_of_id (ok : ConnsOk conns requests log) {other : CmdRequest}
    (member : req ∈ requests) (otherMember : other ∈ requests) (sameId : req.id = other.id) :
    req = other :=
  List.inj_on_of_nodup_map ok.ids member otherMember sameId

theorem ConnsOk.answer (ok : ConnsOk conns requests log)
    (awaiting : conns clientID = some (.awaiting req))
    (replies : Replies clientID req.id outbox) :
    ConnsOk (Function.update conns clientID (some req.donePhase)) requests (log ++ outbox) := by
  obtain ⟨member, isClient, unanswered⟩ := ok.awaiting clientID req awaiting
  subst isClient
  have notAwaiting : ∀ other, req.donePhase ≠ .awaiting other := by
    intro other
    unfold CmdRequest.donePhase
    split <;> simp
  refine ⟨ok.ids, ?_, ?_, ?_, ?_⟩
  · intro otherClient other otherAwaiting
    have different : otherClient ≠ req.clientID := by
      rintro rfl
      rw [Function.update_self] at otherAwaiting
      exact notAwaiting other (Option.some.inj otherAwaiting)
    rw [Function.update_of_ne different] at otherAwaiting
    obtain ⟨otherMember, isOther, otherUnanswered⟩ := ok.awaiting otherClient other otherAwaiting
    refine ⟨otherMember, isOther, fun sent inside isFinal => ?_⟩
    rcases List.mem_append.mp inside with old | new
    · exact otherUnanswered sent old isFinal
    · rw [(replies.addressed sent new).2.1]
      intro sameId
      have same := ok.eq_of_id member otherMember sameId
      subst other
      exact different isOther.symm
  · intro other otherMember
    by_cases same : other = req
    · subst other
      obtain ⟨partials, final, rfl, _, isFinal⟩ := replies.last
      exact Or.inr ⟨final, by simp, isFinal, (replies.addressed final (by simp)).2.1⟩
    · rcases ok.answered other otherMember with otherAwaiting | ⟨sent, old, isAnswer⟩
      · left
        have different : other.clientID ≠ req.clientID := by
          intro sameClient
          rw [sameClient, awaiting] at otherAwaiting
          injection otherAwaiting with samePhase
          injection samePhase with sameReq
          exact same sameReq.symm
        rw [Function.update_of_ne different]
        exact otherAwaiting
      · exact Or.inr ⟨sent, List.mem_append_left _ old, isAnswer⟩
  · intro sent inside
    rcases List.mem_append.mp inside with old | new
    · exact ok.addressed sent old
    · exact ⟨req, member, replies.addressed sent new⟩
  · rw [List.filter_append, List.map_append, replies.finals]
    refine List.nodup_append.mpr ⟨ok.once, List.nodup_singleton _, fun id old other new => ?_⟩
    rw [List.mem_singleton.mp new]
    obtain ⟨sent, inside, rfl⟩ := List.mem_map.mp old
    obtain ⟨inLog, isFinal⟩ := List.mem_filter.mp inside
    exact unanswered sent inLog (by simpa using isFinal)

theorem ConnsOk.ask (ok : ConnsOk conns requests log) (isIdle : conns req.clientID = some .idle)
    (fresh : ∀ old ∈ requests, old.id ≠ req.id) :
    ConnsOk (Function.update conns req.clientID (some (.awaiting req))) (requests ++ [req])
      log := by
  refine ⟨?_, ?_, ?_, ?_, ok.once⟩
  · rw [List.map_append]
    refine List.nodup_append.mpr ⟨ok.ids, List.nodup_singleton _, fun id old other new => ?_⟩
    rw [List.mem_singleton.mp new]
    obtain ⟨earlier, member, rfl⟩ := List.mem_map.mp old
    exact fresh earlier member
  · intro clientID other awaiting
    by_cases same : clientID = req.clientID
    · subst clientID
      rw [Function.update_self] at awaiting
      injection awaiting with samePhase
      injection samePhase with sameReq
      subst other
      refine ⟨by simp, rfl, fun sent inside _ => ?_⟩
      obtain ⟨earlier, member, _, isId, _⟩ := ok.addressed sent inside
      rw [isId]
      exact fresh earlier member
    · rw [Function.update_of_ne same] at awaiting
      obtain ⟨member, isClient, unanswered⟩ := ok.awaiting clientID other awaiting
      exact ⟨List.mem_append_left _ member, isClient, unanswered⟩
  · intro other member
    rcases List.mem_append.mp member with old | new
    · rcases ok.answered other old with awaiting | answered
      · left
        have different : other.clientID ≠ req.clientID := by
          intro sameClient
          rw [sameClient, isIdle] at awaiting
          cases awaiting
        rw [Function.update_of_ne different]
        exact awaiting
      · exact Or.inr answered
    · rw [List.mem_singleton.mp new, Function.update_self]
      exact Or.inl rfl
  · intro sent inside
    obtain ⟨earlier, member, isAddressed⟩ := ok.addressed sent inside
    exact ⟨earlier, List.mem_append_left _ member, isAddressed⟩

theorem ConnsOk.connect (ok : ConnsOk conns requests log) (unknown : conns clientID = none) :
    ConnsOk (Function.update conns clientID (some .idle)) requests log := by
  have kept : ∀ other phase, conns other = some phase →
      Function.update conns clientID (some .idle) other = some phase := by
    intro other phase isPhase
    have different : other ≠ clientID := by
      rintro rfl
      rw [unknown] at isPhase
      cases isPhase
    rw [Function.update_of_ne different]
    exact isPhase
  refine ⟨ok.ids, ?_, ?_, ok.addressed, ok.once⟩
  · intro other req awaiting
    by_cases same : other = clientID
    · subst other
      rw [Function.update_self] at awaiting
      cases awaiting
    · rw [Function.update_of_ne same] at awaiting
      exact ok.awaiting other req awaiting
  · intro req member
    exact (ok.answered req member).imp_left (kept _ _)

theorem CmdProcessor.RepliesToAll.received {resv : List Reservation}
    (all : RepliesToAll resv outbox) (ok : ConnsOk conns requests log)
    (distinct : (resv.map (·.clientId)).Nodup)
    (awaited : ∀ r ∈ resv, ∃ req, conns r.clientId = some (.awaiting req) ∧
      req.id = r.requestId) :
    ∃ after, outbox.foldlM Conns.receive conns = some after ∧
      ConnsOk after requests (log ++ outbox) ∧
      ∀ clientID, (clientID ∉ resv.map (·.clientId) ∧ after clientID = conns clientID) ∨
        clientID ∈ resv.map (·.clientId) ∧
          ∃ req, conns clientID = some (.awaiting req) ∧ after clientID = some req.donePhase := by
  induction all generalizing conns log with
  | nil => exact ⟨conns, rfl, by simpa using ok, by simp⟩
  | @cons r resv block outbox first rest induction =>
      rw [List.map_cons, List.nodup_cons] at distinct
      obtain ⟨req, awaiting, sameId⟩ := awaited r List.mem_cons_self
      rw [← sameId] at first
      have others : ∀ other ∈ resv, other.clientId ≠ r.clientId := by
        intro other member same
        exact distinct.1 (same ▸ List.mem_map_of_mem member)
      obtain ⟨after, receives, afterOk, phases⟩ :=
        induction (ok.answer awaiting first) distinct.2 (by
          intro other member
          rw [Function.update_of_ne (others other member)]
          exact awaited other (List.mem_cons_of_mem _ member))
      refine ⟨after, ?_, by rwa [← List.append_assoc], fun clientID => ?_⟩
      · rw [List.foldlM_append, first.received awaiting]
        exact receives
      · rw [List.map_cons, List.mem_cons]
        by_cases same : clientID = r.clientId
        · subst clientID
          right
          refine ⟨Or.inl rfl, req, awaiting, ?_⟩
          rcases phases r.clientId with ⟨_, kept⟩ | ⟨inside, _⟩
          · rw [kept, Function.update_self]
          · exact absurd inside distinct.1
        · have phase := phases clientID
          rw [Function.update_of_ne same] at phase
          simpa [same] using phase

end Conns

end Coolbeans
