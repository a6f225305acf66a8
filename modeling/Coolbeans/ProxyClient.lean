import Coolbeans.ClusterNode

/-!
# The client of a proxy

`proxy.Client` gives its command processor the reservations of the cluster.  A request goes
to the node as a call; if it is queued there, its answer comes later through a stream, which
a reader moves into a queue that `Tick` drains.  When the stream breaks, what is in it is
lost: the next `Tick` asks the node for the clients that wait, and answers those that do
not with an error.

The calls of the command processor are made one at a time, so `Tick` and `AppendReservation`
do not overlap; the reader, the stream and the node go on at any moment.  A call of the
node that returns takes effect at once: its result changes nothing that the reader or the
stream read.
-/

namespace Coolbeans

open FiniteMap StatefulProgram

/-- Where `Tick` is: not running, after its drain, or asking the node for clients. -/
inductive TickPhase where
  | idle
  | drained (result : List Reservation)
  | asking (result : List Reservation) (asked : List ClientID)
  deriving DecidableEq

/-- The client of a proxy, the stream, and the state machine of the node.  The last field
says for each client of the proxy which request of it has no answer yet. -/
structure ProxySystem where
  node : JSM
  stream : List V1Reservation
  rq : List Reservation
  waiting : List ClientID
  recoverClients : Bool
  phase : TickPhase
  outstanding : ClientID → Option ReqID

/-- What can happen. -/
inductive ProxyStep where
  /-- A client of the proxy asks for a reservation; the node has its own clock. -/
  | appendReservation (clientID : ClientID) (reqID : ReqID) (watchedTubes : List TubeName)
      (nowSecs deadlineAt nodeSecs : Int64)
  /-- The node does something for another client. -/
  | nodeOp (op : Op)
  /-- The node ticks, and the stream takes the first answers for the proxy. -/
  | nodeTick (nodeSecs : Int64) (walk : TubeWalk) (kept : Nat)
  /-- The reader moves an answer from the stream to the queue. -/
  | receive
  /-- The stream breaks; the reader sees it, and opens another. -/
  | breakStream
  /-- `Tick` drains the queue. -/
  | drain
  /-- `Tick` tests and resets the flag of the reader. -/
  | testFlag (order : MapOrder ClientID)
  /-- The node answers which clients wait. -/
  | checkClients (nodeSecs : Int64)
  /-- The call that asks for the clients fails. -/
  | checkFails

namespace ProxySystem

/-- The reservation that the proxy makes of a message. -/
def fromV1 (v1r : V1Reservation) : Reservation where
  requestId := v1r.requestId
  clientId := v1r.clientId
  jobId := v1r.jobId.toUInt64
  status := v1r.status
  bodySize := v1r.bodySize.toInt64
  body := v1r.body
  error := v1r.errorMsg

/-- The answer to a client that the node does not know as waiting.  The texts of its errors
are not modelled. -/
def lostReservation (clientID : ClientID) : Reservation where
  requestId := text "00000000-0000-0000-0000-000000000000"
  clientId := clientID
  jobId := 0
  status := .error
  bodySize := 0
  body := none
  error := none

/-- One round of the loop over the drained queue. -/
def takeEntry (state : List ClientID × List Reservation) (r : Reservation) :
    List ClientID × List Reservation :=
  if r.clientId ∈ state.1 then (state.1.erase r.clientId, state.2 ++ [r]) else state

/-- `Tick` returns: the clients have their answers. -/
def returns (s : ProxySystem) (result : List Reservation) :
    ProxySystem × List Reservation :=
  ({ s with
      phase := .idle
      outstanding := fun clientID =>
        if clientID ∈ result.map (·.clientId) then none else s.outstanding clientID },
    result)

/-- What the node sends to a proxy in a tick. -/
def answersFor (proxyID : ProxyID) (groups : FMap ProxyID (List V1Reservation)) :
    List V1Reservation :=
  (groups.lookup proxyID).getD []

variable (proxyID : ProxyID)

/-- The request of a client as it goes to the node. -/
def reserveRequest (clientID : ClientID) (reqID : ReqID) (watchedTubes : List TubeName)
    (nowSecs deadlineAt : Int64) : ReserveRequest where
  clientId := clientID
  requestId := reqID
  timeoutSecs := (deadlineAt - nowSecs).toInt32
  watchedTubes
  proxyId := proxyID

/-- `AppendReservation`: a request that is queued is outstanding from now on. -/
def appendReservation (s : ProxySystem) (req : ReserveRequest) (nodeSecs : Int64) :
    Option ProxySystem :=
  match fsmApply nodeSecs (.reserve req) s.node with
  | .panic _ => none
  | .err _ node => some { s with node }
  | .ok resv node =>
      if resv.status = .queued then
        if resv.clientId ∈ s.waiting then some { s with node }
        else
          some
            { s with
              node
              waiting := s.waiting ++ [resv.clientId]
              outstanding := Function.update s.outstanding req.clientId (some req.requestId) }
      else some { s with node }

/-- The rest of `Tick` once the node has answered. -/
def recover (s : ProxySystem) (result : List Reservation) (resp : CheckClientStateResponse) :
    ProxySystem × List Reservation :=
  let lost := resp.notWaitingClientIds ++ resp.missingClientIds
  returns { s with waiting := s.waiting.filter (· ∉ lost) } (result ++ lost.map lostReservation)

/-- The operation is not for the clients of the proxy, and it is not a tick. -/
def ForOthers : Op → Prop
  | .appendReservation clientId _ _ _ _ =>
      match ClientURI.parse clientId with
      | some uri => uri.toClientID = clientId ∧ uri.proxyID ≠ proxyID
      | none => False
  | .tick _ _ => False
  | _ => True

instance (op : Op) : Decidable (ForOthers proxyID op) := by
  unfold ForOthers
  split
  · split <;> infer_instance
  · infer_instance
  · infer_instance

/-- What a step does, and what `Tick` returns if it returns in it.  There is no result if
the step cannot be taken or the node panics. -/
def step (s : ProxySystem) : ProxyStep → Option (ProxySystem × List Reservation)
  | .appendReservation clientID reqID watchedTubes nowSecs deadlineAt nodeSecs =>
      if s.phase = .idle ∧ s.outstanding clientID = none then
        (s.appendReservation
          (reserveRequest proxyID clientID reqID watchedTubes nowSecs deadlineAt) nodeSecs).map
            fun s => (s, [])
      else none
  | .nodeOp op =>
      if ForOthers proxyID op then
        (op.run s.node).state?.map fun node => ({ s with node }, [])
      else none
  | .nodeTick nodeSecs walk kept =>
      match fsmApply nodeSecs (.tick walk) s.node with
      | .panic _ => none
      | .err _ node => some ({ s with node }, [])
      | .ok groups node =>
          some ({ s with
            node
            stream := s.stream ++ (answersFor proxyID groups).take kept }, [])
  | .receive =>
      match s.stream with
      | [] => none
      | v1r :: stream => some ({ s with stream, rq := s.rq ++ [fromV1 v1r] }, [])
  | .breakStream => some ({ s with stream := [], recoverClients := true }, [])
  | .drain =>
      if s.phase = .idle then
        let (waiting, result) := s.rq.foldl takeEntry (s.waiting, [])
        some ({ s with rq := [], waiting, phase := .drained result }, [])
      else none
  | .testFlag order =>
      match s.phase with
      | .drained result =>
          if s.recoverClients = false then some (s.returns result)
          else
            let s := { s with recoverClients := false }
            if s.waiting = [] then some (s.returns result)
            else some ({ s with phase := .asking result (order.visit s.waiting) }, [])
      | _ => none
  | .checkClients nodeSecs =>
      match s.phase with
      | .asking result asked =>
          match fsmApply nodeSecs (.checkClientState { proxyId := proxyID, clientIds := asked })
              s.node with
          | .panic _ => none
          | .err _ _ => some (s.returns result)
          | .ok resp _ => some (s.recover result resp)
      | _ => none
  | .checkFails =>
      match s.phase with
      | .asking result _ => some (s.returns result)
      | _ => none

/-- A new client of a proxy, and a new state machine. -/
def start : ProxySystem where
  node := newJSM
  stream := []
  rq := []
  waiting := []
  recoverClients := false
  phase := .idle
  outstanding := fun _ => none

/-- The states that steps which meet a condition reach. -/
inductive Reached (allowed : ProxySystem → ProxyStep → Prop) : ProxySystem → Prop where
  | start : Reached allowed start
  | next {s after : ProxySystem} {taken : ProxyStep} {returned : List Reservation}
      (reached : Reached allowed s) (isAllowed : allowed s taken)
      (steps : s.step proxyID taken = some (after, returned)) : Reached allowed after

/-- A reservation with a result. -/
def HasResult (r : Reservation) : Prop :=
  r.status = .matched ∨ r.status = .timeout ∨ r.status = .deadlineSoon

/-- What is returned with a result answers the request that its client waits for. -/
def AnswersOwn (s : ProxySystem) (returned : List Reservation) : Prop :=
  ∀ r ∈ returned, HasResult r → s.outstanding r.clientId = some r.requestId

end ProxySystem

end Coolbeans
