import Coolbeans.IdleClients
import Coolbeans.NodeAnswers
import Coolbeans.TickReturns

/-!
# Every answer of a tick is routed

The clients of a node have the names that client URIs write, and such a name reads back as the
proxy and the client it was written for.  So the node can read the name in every answer of a
tick, and puts the answer into the group of its proxy.
-/

namespace Coolbeans

open FiniteMap StatefulProgram

/-! ## The states of a node -/

/-- Operations that name a client give it the name of a client URI. -/
def FromClientURIs (_ : JSM) (op : Op) : Prop :=
  ∀ clientID, op.clientID? = some clientID → ∃ uri : ClientURI, clientID = uri.toClientID

/-- The states to which log entries lead a new node.  What a node makes of a snapshot that it
restores is not among them. -/
inductive NodeState : JSM → Prop where
  | new : NodeState newJSM
  | applies {α : Type} {nowSecs : Int64} {op : ApplyOp α} {before after : JSM}
      (earlier : NodeState before) (left : (fsmApply nowSecs op before).state? = some after) :
      NodeState after

section Node

variable {α : Type} {jsm : JSM}

theorem keeps_requireURI {inv : JSM → Prop} (value : Option α) :
    Prog.Keeps inv (requireURI value) := by
  cases value with
  | none => exact Prog.keeps_fail _
  | some value => exact Prog.keeps_pure value

/-- A call of the state machine is a step of its run. -/
theorem keeps_call {program : JSMProg α} (op : Op) (change : α → Reply)
    (named : ∀ jsm, FromClientURIs jsm op) (isCall : op.run = change <$> program) :
    Prog.Keeps (Reachable FromClientURIs) (Prog.mapErr ApplyErr.jsm program) := by
  rintro before ⟨events, run⟩
  apply Prog.ends_mapErr
  have stepsTo : ∀ after, (program before).state? = some after →
      Reachable FromClientURIs after := by
    intro after left
    have ran : (op.run before).state? = some after := by
      rw [isCall, Prog.map_apply]
      cases outcome : program before <;> rw [outcome] at left <;> exact left
    obtain ⟨answer, steps⟩ := Op.steps_of_state ran
    exact ⟨_, run.snoc (named before) steps⟩
  cases outcome : program before with
  | ok value after => exact stepsTo after (by rw [outcome]; rfl)
  | err error after => exact stepsTo after (by rw [outcome]; rfl)
  | panic cause => trivial

theorem fromClientURIs_of_uri {op : Op} {uri : ClientURI}
    (isClient : op.clientID? = some uri.toClientID) (jsm : JSM) : FromClientURIs jsm op := by
  intro clientID named
  rw [isClient] at named
  exact ⟨uri, (Option.some.inj named).symm⟩

theorem fromClientURIs_of_none {op : Op} (nobody : op.clientID? = none) (jsm : JSM) :
    FromClientURIs jsm op := by
  intro clientID named
  rw [nobody] at named
  cases named

/-- The log entries name clients by their URIs only. -/
theorem keeps_fsmApply (nowSecs : Int64) (op : ApplyOp α) :
    Prog.Keeps (Reachable FromClientURIs) (fsmApply nowSecs op) := by
  cases op with
  | bury req =>
      exact (keeps_requireURI _).bind fun uri => keeps_call
        (.bury nowSecs req.jobId.toUInt64 req.priority uri.toClientID) (fun _ => .done)
        (fromClientURIs_of_uri rfl) rfl
  | checkClientState req =>
      exact (keeps_requireURI _).bind fun _ => (Prog.keeps_gets _).bind fun _ =>
        (keeps_requireURI _).bind fun _ => (keeps_requireURI _).bind fun _ =>
        (keeps_requireURI _).bind fun _ => Prog.keeps_pure _
  | delete req =>
      exact (keeps_requireURI _).bind fun uri => keeps_call
        (.delete req.jobId.toUInt64 uri.toClientID) (fun _ => .done)
        (fromClientURIs_of_uri rfl) rfl
  | kick req =>
      exact keeps_call (.kick req.jobId.toUInt64) (fun _ => .done)
        (fromClientURIs_of_none rfl) rfl
  | kickN req =>
      exact (keeps_call (.kickN req.tubeName req.bound.toInt64) .count
        (fromClientURIs_of_none rfl) rfl).bind fun _ => Prog.keeps_pure _
  | put req =>
      exact (keeps_call (.put nowSecs req.priority req.delay req.ttr.toInt64
        req.bodySize.toInt64 req.body req.tubeName) .jobID
        (fromClientURIs_of_none rfl) rfl).bind fun _ => Prog.keeps_pure _
  | release req =>
      exact (keeps_requireURI _).bind fun uri => keeps_call
        (.releaseWith nowSecs req.jobId.toUInt64 uri.toClientID req.priority req.delay)
        (fun _ => .done) (fromClientURIs_of_uri rfl) rfl
  | reserve req =>
      exact (keeps_requireURI _).bind fun uri => (keeps_call
        (.appendReservation uri.toClientID req.requestId req.watchedTubes nowSecs
          (nowSecs + req.timeoutSecs.toInt64)) .reservation
        (fromClientURIs_of_uri rfl) rfl).bind fun _ => keeps_requireURI _
  | tick walk =>
      exact (keeps_call (.tick nowSecs walk) .reservations
        (fromClientURIs_of_none rfl) rfl).bind fun _ =>
        (keeps_requireURI _).bind fun _ => Prog.keeps_pure _
  | touch req =>
      exact (keeps_requireURI _).bind fun uri => keeps_call
        (.touch nowSecs req.jobId.toUInt64 uri.toClientID) (fun _ => .done)
        (fromClientURIs_of_uri rfl) rfl

theorem NodeState.reachable (node : NodeState jsm) : Reachable FromClientURIs jsm := by
  induction node with
  | new => exact ⟨[], .nil _⟩
  | applies _ left induction => exact (keeps_fsmApply _ _ _ induction).of_state left

theorem FromClientURIs.namesClients {op : Op} (named : FromClientURIs jsm op) :
    NamesClients jsm op := by
  intro isEmpty
  obtain ⟨uri, isURI⟩ := named [] isEmpty
  cases isURI

/-- The clients that wait have the names of client URIs. -/
theorem waiting_of_fromClientURIs (reachable : Reachable FromClientURIs jsm) {cli : CliPtr}
    (waiting : (jsm.clientAt cli).isWaitingForResv = true) :
    ∃ uri : ClientURI, cli.cliID = uri.toClientID := by
  let invariant (state : JSM) : Prop := AnyRunOk state ∧ ∀ cli,
    (state.clientAt cli).isWaitingForResv = true → ∃ uri : ClientURI, cli.cliID = uri.toClientID
  have initially : invariant newJSM :=
    ⟨⟨jobsOk_newJSM _, linesOk_newJSM⟩, fun _ impossible => by cases impossible⟩
  have kept : invariant jsm := by
    refine reachable.invariant initially ?_
    rintro before op answer after ⟨ok, earlier⟩ named steps
    refine ⟨(steps.keeps (ends_run_keptLines ok op)).toAnyRunOk, fun cli waits => ?_⟩
    rcases steps.waited ok waits with waited | ⟨_, _, _, _, rfl⟩
    · exact earlier cli waited
    · exact named cli.cliID rfl
  exact kept.2 cli waiting

end Node

/-! ## The groups -/

/-- The message carries the answer to its client, and names its proxy. -/
def Carries (resv : Reservation) (v1r : V1Reservation) : Prop :=
  ∃ uri : ClientURI, resv.clientId = uri.toClientID ∧ v1r =
    { requestId := resv.requestId
      clientId := uri.clientID
      status := resv.status
      jobId := resv.jobId.toInt64
      bodySize := resv.bodySize.toInt32
      body := resv.body
      errorMsg := resv.error
      proxyId := uri.proxyID }

/-- Each answer is in the group of its proxy, once, and in no other group.  A group has its
answers in the order of the list, and there is no empty group. -/
def Routed (resvs : List Reservation) (groups : FMap ProxyID (List V1Reservation)) : Prop :=
  ∃ entries, List.Forall₂ Carries resvs entries ∧ ∀ proxyID,
    groups.lookup proxyID =
      let own := entries.filter fun v1r => decide (v1r.proxyId = proxyID)
      if own = [] then none else some own

theorem toV1Reservation_of_uri {resv : Reservation} {uri : ClientURI}
    (isClient : resv.clientId = uri.toClientID) :
    ∃ v1r, toV1Reservation resv = some v1r ∧ Carries resv v1r := by
  unfold toV1Reservation
  rw [isClient, ClientURI.parse_toClientID]
  exact ⟨_, rfl, uri, isClient, rfl⟩

theorem exists_messages {resvs : List Reservation}
    (named : ∀ resv ∈ resvs, ∃ uri : ClientURI, resv.clientId = uri.toClientID) :
    ∃ entries, resvs.mapM toV1Reservation = some entries ∧
      List.Forall₂ Carries resvs entries := by
  induction resvs with
  | nil => exact ⟨[], rfl, .nil⟩
  | cons resv resvs induction =>
      obtain ⟨⟨uri, isClient⟩, others⟩ := List.forall_mem_cons.mp named
      obtain ⟨v1r, converts, carries⟩ := toV1Reservation_of_uri isClient
      obtain ⟨entries, convertAll, carryAll⟩ := induction others
      refine ⟨v1r :: entries, ?_, .cons carries carryAll⟩
      rw [List.mapM_cons, converts, convertAll]
      rfl

/-- The groups that a list of messages falls into. -/
theorem lookup_foldl_addToProxy (proxyID : ProxyID) (entries : List V1Reservation)
    (groups : FMap ProxyID (List V1Reservation)) :
    (entries.foldl addToProxy groups).lookup proxyID =
      let own := entries.filter fun v1r => decide (v1r.proxyId = proxyID)
      if own = [] then groups.lookup proxyID
      else some (ProxySystem.answersFor proxyID groups ++ own) := by
  induction entries generalizing groups with
  | nil => rfl
  | cons v1r entries induction =>
      rw [List.foldl_cons, induction, answersFor_addToProxy, lookup_addToProxy]
      by_cases same : v1r.proxyId = proxyID <;> simp [same]

/-- Client URIs read back as what was written, so their names differ when they do.  In every run
that names clients by URIs only, as the log entries of a node do, a tick of the node returns the
answers of the tick of the state machine in groups, one for each proxy. -/
theorem applyTick_routes :
    (∀ proxyID clientID, proxyID ≠ [] → clientID ≠ [] → ∃ uri,
      ClientURI.new proxyID clientID = some uri ∧ ClientURI.parse uri.toClientID = some uri ∧
        uri.proxyID = proxyID ∧ uri.clientID = clientID) ∧
    (∀ first second : ClientURI, first.toClientID = second.toClientID → first = second) ∧
    (∀ node, NodeState node → Reachable FromClientURIs node) ∧
    ∀ jsm, Reachable FromClientURIs jsm → ∀ nowSecs walk, ∃ resvs groups after,
      tick nowSecs walk jsm = .ok resvs after ∧
        applyTick nowSecs walk jsm = .ok groups after ∧ Routed resvs groups := by
  refine ⟨fun proxyID clientID someProxy someClient => ?_,
    fun _ _ => ClientURI.toClientID_injective, fun _ => NodeState.reachable,
    fun jsm reachable nowSecs walk => ?_⟩
  · let uri : ClientURI := ⟨proxyID, clientID, someProxy, someClient⟩
    exact ⟨uri, uri.new_eq, uri.parse_toClientID, rfl, rfl⟩
  · have owned : JobsOk .ownTouches jsm := by
      obtain ⟨events, run⟩ := reachable
      exact jobsOk_of_namesClients ⟨events, run.mono fun _ _ named => named.namesClients⟩
    obtain ⟨resvs, after, ticks, toWaiting⟩ :=
      (anyRunOk_of_reachable reachable).tick_answers owned nowSecs walk
    have named : ∀ resv ∈ resvs, ∃ uri : ClientURI, resv.clientId = uri.toClientID := by
      intro resv member
      obtain ⟨cli, waiting, isClient⟩ := toWaiting resv member
      rw [isClient]
      exact waiting_of_fromClientURIs reachable waiting
    obtain ⟨entries, converts, carries⟩ := exists_messages named
    refine ⟨resvs, entries.foldl addToProxy ∅, after, ticks, ?_, entries, carries,
      fun proxyID => lookup_foldl_addToProxy proxyID entries ∅⟩
    unfold applyTick
    rw [Prog.bind_apply, Prog.mapErr, ticks, Outcome.mapErr, Outcome.ok_andThen, converts]
    rfl

/-- A client of one proxy is matched in the tick, and one of another runs out of time. -/
def twoProxiesWait : List Op :=
  [.appendReservation (ClientURI.mk [112] [97, 38] (by decide)).toClientID [1] [[1]] 10 60,
    .appendReservation (ClientURI.mk [113] [97, 38] (by decide)).toClientID [2] [[2]] 10 20,
    .put 11 5 0 60 0 none [1]]

theorem applyTick_routes_twoProxies :
    (∃ resvs groups after, tick 50 .inOrder (stateAfter twoProxiesWait) = .ok resvs after ∧
      applyTick 50 .inOrder (stateAfter twoProxiesWait) = .ok groups after ∧
      Routed resvs groups) ∧
    ((applyTick 50 .inOrder (stateAfter twoProxiesWait)).reply?.bind Except.toOption).map
      (fun groups => (ProxySystem.answersFor [112] groups).map (·.status)) = some [.matched] ∧
    ((applyTick 50 .inOrder (stateAfter twoProxiesWait)).reply?.bind Except.toOption).map
      (fun groups => (ProxySystem.answersFor [113] groups).map (·.status)) = some [.timeout] := by
  have named : ∀ op ∈ twoProxiesWait, ∀ jsm, FromClientURIs jsm op := by
    simp only [twoProxiesWait, List.forall_mem_cons]
    exact ⟨fromClientURIs_of_uri rfl, fromClientURIs_of_uri rfl, fromClientURIs_of_none rfl,
      by simp⟩
  refine ⟨applyTick_routes.2.2.2 _ (reachable_stateAfter _ named) 50 .inOrder, ?_, ?_⟩
  · decide +kernel
  · decide +kernel

end Coolbeans
