import Coolbeans.ClientURI
import Coolbeans.Operation

/-!
# A node of the cluster

The finite state machine that the nodes of the cluster replicate, `fsm` of the package
`store`, and the messages of `jsm.proto` that it answers.  A message names a client by
its proxy and its id there; the state machine knows it by its client URI.  The numbers
of a message have the widths that `jsm.proto` gives them.
-/

namespace Coolbeans

open FiniteMap StatefulProgram

/-! ## Messages -/

structure PutRequest where
  priority : UInt32
  delay : Int64
  ttr : Int32
  tubeName : TubeName
  bodySize : Int32
  body : Option Bytes
  deriving DecidableEq, Repr

structure PutResponse where
  jobId : Int64
  deriving DecidableEq, Repr

structure DeleteRequest where
  jobId : Int64
  proxyId : ProxyID
  clientId : ClientID
  deriving DecidableEq, Repr

structure ReleaseRequest where
  jobId : Int64
  clientId : ClientID
  proxyId : ProxyID
  delay : Int64
  priority : UInt32
  deriving DecidableEq, Repr

structure TouchRequest where
  jobId : Int64
  clientId : ClientID
  proxyId : ProxyID
  deriving DecidableEq, Repr

structure BuryRequest where
  jobId : Int64
  priority : UInt32
  clientId : ClientID
  proxyId : ProxyID
  deriving DecidableEq, Repr

structure KickRequest where
  jobId : Int64
  deriving DecidableEq, Repr

structure KickNRequest where
  tubeName : TubeName
  bound : Int32
  deriving DecidableEq, Repr

structure KickNResponse where
  jobsKicked : Int32
  deriving DecidableEq, Repr

structure ReserveRequest where
  clientId : ClientID
  requestId : ReqID
  timeoutSecs : Int32
  watchedTubes : List TubeName
  proxyId : ProxyID
  deriving DecidableEq, Repr

/-- `Reservation` of `jsm.proto`; an empty error message is `none`. -/
structure V1Reservation where
  requestId : ReqID
  clientId : ClientID
  status : ReservationStatus
  jobId : Int64
  bodySize : Int32
  body : Option Bytes
  errorMsg : Option Err
  proxyId : ProxyID
  deriving DecidableEq, Repr

structure CheckClientStateRequest where
  proxyId : ProxyID
  clientIds : List ClientID
  deriving DecidableEq, Repr

structure CheckClientStateResponse where
  proxyId : ProxyID
  waitingClientIds : List ClientID
  notWaitingClientIds : List ClientID
  missingClientIds : List ClientID
  deriving DecidableEq, Repr

/-- What `Apply` fails with: a client URI that does not validate or does not parse, or an
error of the state machine.  The caller gets it as the text of a status error. -/
inductive ApplyErr where
  | clientURI
  | jsm (err : Err)
  deriving DecidableEq, Repr

/-- A program of the replicated state machine. -/
abbrev FsmProg (α : Type) := Prog JSM ApplyErr Panic α

/-- The value, unless a client URI was bad. -/
def requireURI {α : Type} : Option α → FsmProg α
  | some value => pure value
  | none => Prog.fail .clientURI

/-! ## Commands on jobs -/

def applyBury (nowSecs : Int64) (req : BuryRequest) : FsmProg Unit := do
  let cu ← requireURI (ClientURI.new req.proxyId req.clientId)
  Prog.mapErr .jsm (bury nowSecs req.jobId.toUInt64 req.priority cu.toClientID)

def applyDelete (req : DeleteRequest) : FsmProg Unit := do
  let cu ← requireURI (ClientURI.new req.proxyId req.clientId)
  Prog.mapErr .jsm (delete req.jobId.toUInt64 cu.toClientID)

def applyPut (nowSecs : Int64) (pReq : PutRequest) : FsmProg PutResponse := do
  let jobID ← Prog.mapErr .jsm (put nowSecs pReq.priority pReq.delay pReq.ttr.toInt64
    pReq.bodySize.toInt64 pReq.body pReq.tubeName)
  pure { jobId := jobID.toInt64 }

def applyKick (req : KickRequest) : FsmProg Unit :=
  Prog.mapErr .jsm (kick req.jobId.toUInt64)

def applyKickN (req : KickNRequest) : FsmProg KickNResponse := do
  let jobsKicked ← Prog.mapErr .jsm (kickN req.tubeName req.bound.toInt64)
  pure { jobsKicked := jobsKicked.toInt32 }

def applyRelease (nowSecs : Int64) (req : ReleaseRequest) : FsmProg Unit := do
  let cu ← requireURI (ClientURI.new req.proxyId req.clientId)
  Prog.mapErr .jsm (releaseWith nowSecs req.jobId.toUInt64 cu.toClientID req.priority req.delay)

def applyTouch (nowSecs : Int64) (req : TouchRequest) : FsmProg Unit := do
  let cu ← requireURI (ClientURI.new req.proxyId req.clientId)
  Prog.mapErr .jsm (touch nowSecs req.jobId.toUInt64 cu.toClientID)

/-! ## Reservations -/

def toV1Reservation (r : Reservation) : Option V1Reservation := do
  let cu ← ClientURI.parse r.clientId
  pure
    { requestId := r.requestId
      clientId := cu.clientID
      proxyId := cu.proxyID
      status := r.status
      jobId := r.jobId.toInt64
      bodySize := r.bodySize.toInt32
      body := r.body
      errorMsg := r.error }

def applyReserve (nowSecs : Int64) (req : ReserveRequest) : FsmProg V1Reservation := do
  let cu ← requireURI (ClientURI.new req.proxyId req.clientId)
  let r ← Prog.mapErr .jsm (appendReservation cu.toClientID req.requestId req.watchedTubes
    nowSecs (nowSecs + req.timeoutSecs.toInt64))
  requireURI (toV1Reservation r)

/-- One round of the loop of `ApplyTick` that groups the reservations by proxy. -/
def addToProxy (proxyReservations : FMap ProxyID (List V1Reservation)) (v1r : V1Reservation) :
    FMap ProxyID (List V1Reservation) :=
  match proxyReservations.lookup v1r.proxyId with
  | none => proxyReservations.insert v1r.proxyId [v1r]
  | some entries => proxyReservations.insert v1r.proxyId (entries ++ [v1r])

def applyTick (nowSecs : Int64) (walk : TubeWalk) :
    FsmProg (FMap ProxyID (List V1Reservation)) := do
  let rs ← Prog.mapErr .jsm (tick nowSecs walk)
  let entries ← requireURI (rs.mapM toV1Reservation)
  pure (entries.foldl addToProxy ∅)

/-! ## Queries on clients -/

/-- How a client stands with the state machine. -/
inductive ClientStanding where
  | waiting
  | notWaiting
  | missing
  deriving DecidableEq, Repr

def JSM.standing (jsm : JSM) (clientID : ClientID) : ClientStanding :=
  match jsm.clients.find clientID with
  | .error _ => .missing
  | .ok cli => if (jsm.clientAt cli).isWaitingForResv then .waiting else .notWaiting

/-- `CheckClientState`: those of the clients that stand so. -/
def JSM.checkClientState (jsm : JSM) (clientIDs : List ClientID) (standing : ClientStanding) :
    List ClientID :=
  clientIDs.filter fun clientID => jsm.standing clientID = standing

/-- `ToStrings` -/
def toStrings (clientIds : List ClientID) : Option (List ClientID) :=
  clientIds.mapM fun clientID => (ClientURI.parse clientID).map (·.clientID)

def applyCheckState (req : CheckClientStateRequest) : FsmProg CheckClientStateResponse := do
  let clientIDs ← requireURI
    (req.clientIds.mapM fun id => (ClientURI.new req.proxyId id).map (·.toClientID))
  let states ← Prog.gets fun jsm => jsm.checkClientState clientIDs
  let missing ← requireURI (toStrings (states .missing))
  let waiting ← requireURI (toStrings (states .waiting))
  let notWaiting ← requireURI (toStrings (states .notWaiting))
  pure
    { proxyId := req.proxyId
      waitingClientIds := waiting
      notWaitingClientIds := notWaiting
      missingClientIds := missing }

/-! ## The log entries -/

/-- The operations of the log, with the requests that they carry and the responses that
they give. -/
inductive ApplyOp : Type → Type where
  | bury (req : BuryRequest) : ApplyOp Unit
  | checkClientState (req : CheckClientStateRequest) : ApplyOp CheckClientStateResponse
  | delete (req : DeleteRequest) : ApplyOp Unit
  | kick (req : KickRequest) : ApplyOp Unit
  | kickN (req : KickNRequest) : ApplyOp KickNResponse
  | put (req : PutRequest) : ApplyOp PutResponse
  | release (req : ReleaseRequest) : ApplyOp Unit
  | reserve (req : ReserveRequest) : ApplyOp V1Reservation
  | tick (walk : TubeWalk) : ApplyOp (FMap ProxyID (List V1Reservation))
  | touch (req : TouchRequest) : ApplyOp Unit

/-- `Apply` at the clock that `performApply` wrote into the log entry. -/
def fsmApply {α : Type} (nowSecs : Int64) : ApplyOp α → FsmProg α
  | .bury req => applyBury nowSecs req
  | .checkClientState req => applyCheckState req
  | .delete req => applyDelete req
  | .kick req => applyKick req
  | .kickN req => applyKickN req
  | .put req => applyPut nowSecs req
  | .release req => applyRelease nowSecs req
  | .reserve req => applyReserve nowSecs req
  | .tick walk => applyTick nowSecs walk
  | .touch req => applyTouch nowSecs req

end Coolbeans
