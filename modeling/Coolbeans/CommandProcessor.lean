import Coolbeans.Connection
import Coolbeans.Operation

/-!
# The command processor

`cmdProcessor` of the package `core` over a state machine: one loop that registers clients,
handles their requests and replies to the reservations of a tick.  A response is sent on
the channel of a client.  The texts in YAML that the statistics and `list-tubes` give are
not modelled: what their calls return is an input of the handler.
-/

namespace Coolbeans

open FiniteMap StatefulProgram

def defaultTubeName : TubeName := text "default"

def msgCannotIgnoreTube : Bytes := text "NOT_IGNORED"
def msgTimedOut : Bytes := text "TIMED_OUT"
def msgDeadlineSoon : Bytes := text "DEADLINE_SOON"
def msgNotFound : Bytes := text "NOT_FOUND"

/-! ## Clients -/

/-- `tubeSet` -/
structure TubeSet where
  names : List TubeName
  nodup : names.Nodup
  deriving DecidableEq

namespace TubeSet

def set (name : TubeName) (tubes : TubeSet) : TubeSet :=
  if present : name ∈ tubes.names then tubes
  else ⟨name :: tubes.names, List.nodup_cons.mpr ⟨present, tubes.nodup⟩⟩

def remove (name : TubeName) (tubes : TubeSet) : TubeSet :=
  ⟨tubes.names.erase name, tubes.nodup.erase name⟩

def len (tubes : TubeSet) : Nat :=
  tubes.names.length

end TubeSet

/-- A client of the processor.  Its channel is known by its id. -/
structure CoreClient where
  id : ClientID
  useTube : TubeName
  watchingTubes : TubeSet
  deriving DecidableEq

/-- `NewClient`; `id` is the unique identifier that it draws. -/
def newClient (id : ClientID) (useTube : TubeName) : CoreClient where
  id
  useTube
  watchingTubes := TubeSet.set defaultTubeName ⟨[], List.nodup_nil⟩

/-- The clients by their ids. -/
structure ClientSet where
  map : FMap ClientID CoreClient
  keyed : ∀ id cli, map.lookup id = some cli → cli.id = id

namespace ClientSet

def empty : ClientSet where
  map := ∅
  keyed := by simp

def find (clientID : ClientID) (cs : ClientSet) : Option CoreClient :=
  cs.map.lookup clientID

/-- Write a client, new or old. -/
def set (cli : CoreClient) (cs : ClientSet) : ClientSet where
  map := cs.map.insert cli.id cli
  keyed := by
    intro id found isFound
    rw [lookup_insert] at isFound
    split at isFound
    next same =>
      cases isFound
      exact same.symm
    next => exact cs.keyed id found isFound

def remove (cli : CoreClient) (cs : ClientSet) : ClientSet where
  map := cs.map.erase cli.id
  keyed := by
    intro id found isFound
    rw [lookup_erase] at isFound
    split at isFound
    next => cases isFound
    next => exact cs.keyed id found isFound

theorem find_set (cli : CoreClient) (cs : ClientSet) (read : ClientID) :
    (cs.set cli).find read = if read = cli.id then some cli else cs.find read :=
  lookup_insert cs.map cli.id read cli

theorem find_remove (cli : CoreClient) (cs : ClientSet) (read : ClientID) :
    (cs.remove cli).find read = if read = cli.id then none else cs.find read :=
  lookup_erase cs.map cli.id read

end ClientSet

/-! ## Responses -/

structure CmdResponse where
  requestID : ReqID
  clientID : ClientID
  response : Option Bytes
  hasMore : Bool
  deriving DecidableEq, Repr

def newCmdResponseFromReq (req : CmdRequest) : CmdResponse where
  requestID := req.id
  clientID := req.clientID
  response := none
  hasMore := false

def CmdResponse.setResponse (msg : Bytes) (resp : CmdResponse) : CmdResponse :=
  { resp with response := some msg }

/-- A response that was sent on the channel of a client. -/
structure Sent where
  channel : ClientID
  resp : CmdResponse
  deriving DecidableEq, Repr

/-- The panics of the processor: those of the state machine, a request of an unknown
client, an argument of another command, a nil client and a send on a closed channel. -/
inductive CmdPanic where
  | jsm (cause : Panic)
  | clientMissing
  | castError
  | nilClient
  | closedChannel
  deriving DecidableEq, Repr

/-- The processor, with the responses that the current round of its loop has sent and the
channels that are closed. -/
structure CmdProcessor where
  clients : ClientSet
  jsm : JSM
  maxReserveTimeoutSecs : Int64
  outbox : List Sent
  closed : List ClientID

/-- A program of the processor. -/
abbrev CmdProg (α : Type) := Prog CmdProcessor Err CmdPanic α

/-- What the handling of a request reads from outside: the clock, which `addToNow` reads
again, the order of a tube set, and the YAML text that a call returned. -/
structure RequestEnv where
  now : Int64
  later : Int64
  order : MapOrder TubeName
  yaml : Option Bytes

namespace CmdProcessor

/-- Call the state machine. -/
def callJSM {α : Type} (call : JSMProg α) : CmdProg (Except Err α) := fun c =>
  match call c.jsm with
  | .ok value jsm => .ok (.ok value) { c with jsm }
  | .err error jsm => .ok (.error error) { c with jsm }
  | .panic cause => .panic (.jsm cause)

/-- Send a response on the channel of a client. -/
def send (cli : CoreClient) (resp : CmdResponse) : CmdProg Unit := fun c =>
  if cli.id ∈ c.closed then .panic .closedChannel
  else .ok () { c with outbox := c.outbox ++ [⟨cli.id, resp⟩] }

def sendCmdResponse (reqID : ReqID) (cli : CoreClient) (body : Option Bytes) (hasMore : Bool) :
    CmdProg Unit :=
  send cli { requestID := reqID, clientID := cli.id, response := body, hasMore }

/-- The response of a handler that has only one. -/
def single (req : CmdRequest) (msg : Bytes) : Option CmdResponse :=
  some ((newCmdResponseFromReq req).setResponse msg)

/-- The handlers that make one call and answer it with one response. -/
def replyCall {α : Type} (req : CmdRequest) (call : JSMProg α) (done : α → Bytes)
    (failed : Bytes) : CmdProg (Option CmdResponse) := do
  match ← callJSM call with
  | .ok value => pure (single req (done value))
  | .error _ => pure (single req failed)

section Handlers

variable (env : RequestEnv) (cli : CoreClient) (req : CmdRequest)

def decimal (n : Int) : Bytes :=
  text (toString n)

/-! ### One response -/

def put : CmdProg (Option CmdResponse) :=
  match req.cmd with
  | .put cmd =>
      replyCall req
        (Coolbeans.put env.now cmd.pri cmd.delay cmd.ttr cmd.size cmd.data cli.useTube)
        (fun newJobID => text "INSERTED " ++ decimal newJobID.toNat) msgInternalError
  | _ => Prog.crash .castError

def bury : CmdProg (Option CmdResponse) :=
  match req.cmd with
  | .bury cmd =>
      replyCall req (Coolbeans.bury env.now cmd.id cmd.pri cli.id) (fun _ => text "BURIED")
        msgNotFound
  | _ => Prog.crash .castError

def delete : CmdProg (Option CmdResponse) :=
  match req.cmd with
  | .id id => replyCall req (Coolbeans.delete id cli.id) (fun _ => text "DELETED") msgNotFound
  | _ => Prog.crash .castError

def kick : CmdProg (Option CmdResponse) :=
  match req.cmd with
  | .id id => replyCall req (Coolbeans.kick id) (fun _ => text "KICKED") msgNotFound
  | _ => Prog.crash .castError

def kickN : CmdProg (Option CmdResponse) :=
  match req.cmd with
  | .kickN bound =>
      replyCall req (Coolbeans.kickN cli.useTube bound)
        (fun n => text "KICKED " ++ decimal n.toInt) msgInternalError
  | _ => Prog.crash .castError

def releaseWith : CmdProg (Option CmdResponse) :=
  match req.cmd with
  | .release cmd =>
      replyCall req (Coolbeans.releaseWith env.now cmd.id cli.id cmd.pri cmd.delay)
        (fun _ => text "RELEASED") msgNotFound
  | _ => Prog.crash .castError

def touch : CmdProg (Option CmdResponse) :=
  match req.cmd with
  | .id id =>
      replyCall req (Coolbeans.touch env.now id req.clientID) (fun _ => text "TOUCHED")
        msgNotFound
  | _ => Prog.crash .castError

/-- Write the client. -/
def setClient (cli : CoreClient) : CmdProg Unit :=
  Prog.modify fun c => { c with clients := c.clients.set cli }

def use : CmdProg (Option CmdResponse) :=
  match req.cmd with
  | .tube tubeName => do
      setClient { cli with useTube := tubeName }
      pure (single req (text "USING " ++ tubeName))
  | _ => Prog.crash .castError

def watch : CmdProg (Option CmdResponse) :=
  match req.cmd with
  | .tube tubeName => do
      let watchingTubes := cli.watchingTubes.set tubeName
      setClient { cli with watchingTubes }
      pure (single req (text "WATCHING " ++ decimal watchingTubes.len))
  | _ => Prog.crash .castError

def ignore : CmdProg (Option CmdResponse) :=
  match req.cmd with
  | .tube tubeName =>
      if cli.watchingTubes.len > 1 then do
        let watchingTubes := cli.watchingTubes.remove tubeName
        setClient { cli with watchingTubes }
        pure (single req (text "WATCHING " ++ decimal watchingTubes.len))
      else pure (single req msgCannotIgnoreTube)
  | _ => Prog.crash .castError

/-- The client is forgotten; its tube set is dropped with it. -/
def quit : CmdProg (Option CmdResponse) := do
  let clients ← Prog.gets (·.clients)
  Prog.insist ((clients.find cli.id).isSome = true) .clientMissing
  Prog.modify fun c => { c with clients := c.clients.remove cli }
  pure (some (newCmdResponseFromReq req))

/-! ### Two responses -/

def replyPeek (job : Except Err Job) : CmdProg (Option CmdResponse) :=
  match job with
  | .error _ => pure (single req msgNotFound)
  | .ok j => do
      sendCmdResponse req.id cli
        (some (text "FOUND " ++ decimal j.id.toNat ++ text " " ++ decimal j.bodySize.toInt)) true
      sendCmdResponse req.id cli j.body false
      pure none

def peek : CmdProg (Option CmdResponse) :=
  match req.cmd with
  | .id id => do
      let j ← callJSM (getJob id)
      replyPeek cli req j
  | _ => Prog.crash .castError

/-- The job that a peek returns. -/
def peekTube (pf : TubeName → JSMProg Nat) (tubeName : TubeName) : JSMProg Job := do
  let entry ← pf tubeName
  Prog.gets (·.jobOf entry)

def callPeekFunc (pf : TubeName → JSMProg Nat) : CmdProg (Option CmdResponse) := do
  let j ← callJSM (peekTube pf cli.useTube)
  replyPeek cli req j

def yamlHdr : Bytes := text "---\n"

def sendYamlResponse (b : Bytes) : CmdProg Unit := do
  sendCmdResponse req.id cli (some (text "OK " ++ decimal (yamlHdr ++ b).length)) true
  sendCmdResponse req.id cli (some (yamlHdr ++ b)) false

/-- The handlers that send a text in YAML. -/
def replyYaml (failed : Bytes) : CmdProg (Option CmdResponse) :=
  match env.yaml with
  | none => pure (single req failed)
  | some b => do
      sendYamlResponse cli req b
      pure none

def listTubes : CmdProg (Option CmdResponse) :=
  replyYaml env cli req msgInternalError

def statsJob : CmdProg (Option CmdResponse) :=
  match req.cmd with
  | .id _ => replyYaml env cli req msgNotFound
  | _ => Prog.crash .castError

def statsTube : CmdProg (Option CmdResponse) :=
  match req.cmd with
  | .tube _ => replyYaml env cli req msgNotFound
  | _ => Prog.crash .castError

def stats : CmdProg (Option CmdResponse) :=
  replyYaml env cli req msgNotFound

/-! ### Reservations -/

/-- `replyReservation`; the client can be nil, and every branch reads it. -/
def replyReservation (r : Option Reservation) (cli : Option CoreClient) (reqID : ReqID) :
    CmdProg Unit := do
  let cli ← Prog.deref .nilClient cli
  match r with
  | none => sendCmdResponse reqID cli (some msgInternalError) false
  | some r =>
      match r.status with
      | .matched => do
          sendCmdResponse r.requestId cli (some (text "RESERVED " ++ decimal r.jobId.toNat ++
            text " " ++ decimal r.bodySize.toInt)) true
          sendCmdResponse r.requestId cli r.body false
      | .timeout => sendCmdResponse r.requestId cli (some msgTimedOut) false
      | .deadlineSoon => sendCmdResponse r.requestId cli (some msgDeadlineSoon) false
      | .queued => pure ()
      | .unknown | .error => do
          let clients ← Prog.gets (·.clients)
          let owner ← Prog.deref .nilClient (clients.find r.clientId)
          sendCmdResponse r.requestId owner (some msgInternalError) false

def appendReservation (reqID : ReqID) (nowSecs deadlineAt : Int64) : CmdProg Unit := do
  let watchedTubes := env.order.visit cli.watchingTubes.names
  match ← callJSM (Coolbeans.appendReservation cli.id reqID watchedTubes nowSecs deadlineAt) with
  | .error _ => replyReservation none (some cli) reqID
  | .ok r => replyReservation (some r) (some cli) reqID

def reserve : CmdProg (Option CmdResponse) := do
  let maxReserveTimeoutSecs ← Prog.gets (·.maxReserveTimeoutSecs)
  appendReservation env cli req.id env.now (env.later + maxReserveTimeoutSecs)
  pure none

def reserveWithTimeout : CmdProg (Option CmdResponse) :=
  match req.cmd with
  | .reserveWithTimeout timeoutSeconds => do
      let maxReserveTimeoutSecs ← Prog.gets (·.maxReserveTimeoutSecs)
      if timeoutSeconds > maxReserveTimeoutSecs then pure (single req msgBadFormat)
      else do
        appendReservation env cli req.id env.now (env.later + timeoutSeconds)
        pure none
  | _ => Prog.crash .castError

/-- The handler of a command. -/
def handle : CmdProg (Option CmdResponse) :=
  match req.cmdType with
  | .bury => bury env cli req
  | .delete => delete cli req
  | .ignore => ignore cli req
  | .kick => kickN cli req
  | .kickJob => kick req
  | .listTubes => listTubes env cli req
  | .peek => peek cli req
  | .peekBuried => callPeekFunc cli req peekBuriedJob
  | .peekDelayed => callPeekFunc cli req peekDelayedJob
  | .peekReady => callPeekFunc cli req peekReadyJob
  | .put => put env cli req
  | .release => releaseWith env cli req
  | .reserve => reserve env cli req
  | .reserveWithTimeout => reserveWithTimeout env cli req
  | .statsJob => statsJob env cli req
  | .statsTube => statsTube env cli req
  | .stats => stats env cli req
  | .touch => touch env req
  | .use => use cli req
  | .watch => watch cli req
  | .quit => quit cli req
  | _ => pure (single req msgUnknownCommand)

end Handlers

/-! ## The loop -/

/-- Send the response that a handler returned, if it did. -/
def sendLast (cli : CoreClient) : Option CmdResponse → CmdProg Unit
  | some resp => send cli resp
  | none => pure ()

/-- Close the channel of a client that quits. -/
def closeIf (closeResp : Bool) (cli : CoreClient) : CmdProg Unit :=
  Prog.modify fun c => if closeResp then { c with closed := c.closed ++ [cli.id] } else c

def processRequest (env : RequestEnv) (req : CmdRequest) : CmdProg Unit := do
  let clients ← Prog.gets (·.clients)
  let cli ← Prog.deref .clientMissing (clients.find req.clientID)
  let resp ← handle env cli req
  sendLast cli resp
  closeIf (req.cmdType = .quit) cli

/-- The replies to the reservations of a tick. -/
def replyReservations (resv : List Reservation) : CmdProg Unit :=
  resv.foldlM (fun _ r => do
    let clients ← Prog.gets (·.clients)
    replyReservation (some r) (clients.find r.clientId) r.requestId) ()

/-- The case of the loop of `Run` for its ticker. -/
def runTick (now : Int64) (walk : TubeWalk) : CmdProg Unit := do
  match ← callJSM (Coolbeans.tick now walk) with
  | .error _ => pure ()
  | .ok resv => replyReservations resv

end CmdProcessor

end Coolbeans
