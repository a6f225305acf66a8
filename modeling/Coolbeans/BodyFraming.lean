import Coolbeans.CommandReplies
import Coolbeans.DecimalNumerals
import Coolbeans.ProxyClient
import Coolbeans.RemoteCommands

/-!
# Responses that carry a body

A job is sent to a client in two responses: a line that announces the size of the body, and
the body.  The connection writes each response with a line end after it, and leaves out a
response that is nil.  A bytes field of a message that is empty is decoded as nil, so behind
a proxy an empty body loses its line end, and the client takes the next reply for it.
-/

namespace Coolbeans

open FiniteMap StatefulProgram

/-! ## The connection -/

namespace Conn

def replyBytes (b : Bytes) : Bytes :=
  b ++ text "\r\n"

/-- What the loop at the end of `dispatchCommand` writes, from the responses in the order of
their channel; it still waits if none of them is the last one. -/
def writeReplies : List CmdResponse → Option Bytes
  | [] => none
  | reply :: rest =>
      let bytes := (reply.response.map replyBytes).getD []
      if reply.hasMore then (writeReplies rest).map (bytes ++ ·) else some bytes

end Conn

/-! ## Messages on the wire -/

/-- A bytes field after it was marshalled and unmarshalled. -/
def wireBytes : Option Bytes → Option Bytes
  | none | some [] => none
  | some body => some body

def PutRequest.wire (req : PutRequest) : PutRequest :=
  { req with body := wireBytes req.body }

def JobProto.wire (jp : JobProto) : JobProto :=
  { jp with body := wireBytes jp.body }

def V1Reservation.wire (v1r : V1Reservation) : V1Reservation :=
  { v1r with body := wireBytes v1r.body }

/-! ## Decimal numbers -/

namespace CmdProcessor

theorem decimal_natCast (n : Nat) : decimal n = DecimalNumerals.render n := by
  have digits : toString (n : Int) = String.ofList (Nat.toDigits 10 n) :=
    Nat.toString_eq_ofList_toDigits
  rw [decimal, text, digits, String.toList_ofList]
  rfl

theorem decimal_eq_natCast_iff (i : Int) (n : Nat) : decimal i = decimal n ↔ i = n := by
  constructor
  · intro same
    rw [decimal_natCast] at same
    cases i with
    | ofNat m =>
        have written : DecimalNumerals.render m = DecimalNumerals.render n := by
          rw [← decimal_natCast]
          exact same
        have read := congrArg DecimalNumerals.value written
        rw [DecimalNumerals.value_render, DecimalNumerals.value_render] at read
        rw [read]
        rfl
    | negSucc m =>
        -- the first byte is the sign, which is no digit
        have minus : (45 : UInt8) ∈ decimal (Int.negSucc m) := by
          have signed : toString (Int.negSucc m) = "-" ++ toString (m + 1) := rfl
          rw [decimal, text, signed, String.toList_append]
          simp
        rw [same] at minus
        exact absurd ((DecimalNumerals.isNumeral_render n).2 45 minus).1 (by decide)
  · intro same
    rw [same]

end CmdProcessor

/-! ## The ways of a body -/

/-- Where the state machine of a processor is: in its own process, or behind a proxy that
knows the client by a URI. -/
inductive Link where
  | direct
  | proxy (cu : ClientURI)

namespace Link

/-- The link is one of this client. -/
def Serves (clientID : ClientID) : Link → Prop
  | direct => True
  | proxy cu => cu.clientID = clientID

/-- A job of the state machine as `GetJob` or a peek returns it. -/
def job : Link → Job → Job
  | direct, j => j
  | proxy _, j => newJobFromJobProto (jobToJobProto j).wire

/-- The match of a job with a client, as `AppendReservation` or `Tick` returns it. -/
def reservation (reqID : ReqID) (clientID : ClientID) (j : Job) : Link → Option Reservation
  | direct => some (matchedReservation reqID ⟨clientID, 0⟩ j)
  | proxy cu =>
      (toV1Reservation (matchedReservation reqID ⟨cu.toClientID, 0⟩ j)).map fun v1r =>
        ProxySystem.fromV1 v1r.wire

/-- The body that the processor gets is there, and its size is the one of the job. -/
def Carries (j : Job) : Link → Prop
  | direct => j.body ≠ none
  | proxy _ => j.body ≠ none ∧ j.body ≠ some [] ∧ j.bodySize.toInt < 2 ^ 31

end Link

/-- The calls that give a processor a job to send. -/
inductive BodyRoute where
  /-- `peek`, `peek-ready`, `peek-delayed` and `peek-buried` -/
  | peek
  /-- a `reserve` that is answered at once -/
  | reserve
  /-- a `reserve` that is answered by a tick -/
  | tick

namespace BodyRoute

def word : BodyRoute → Bytes
  | peek => text "FOUND "
  | reserve | tick => text "RESERVED "

open CmdProcessor in
/-- What the processor does with the job that the call gave. -/
def reply (link : Link) (cli : CoreClient) (req : CmdRequest) (j : Job) :
    BodyRoute → CmdProg Unit
  | peek => do
      let resp ← replyPeek cli req (.ok (link.job j))
      sendLast cli resp
  | reserve => replyReservation (link.reservation req.id cli.id j) (some cli) req.id
  | tick => replyReservations (link.reservation req.id cli.id j).toList

/-- The bytes of a job whose body is complete: the line that announces `n` bytes, these
bytes and a line end. -/
def frame (route : BodyRoute) (j : Job) : Bytes :=
  let body := j.body.getD []
  route.word ++ CmdProcessor.decimal j.id.toNat ++ text " " ++
    CmdProcessor.decimal body.length ++ text "\r\n" ++ body ++ text "\r\n"

/-- The processor sends responses to the client, and its connection writes the frame of the
job from them. -/
def Framed (c : CmdProcessor) (link : Link) (cli : CoreClient) (req : CmdRequest) (j : Job)
    (route : BodyRoute) : Prop :=
  ∃ sent : List CmdResponse,
    route.reply link cli req j c =
      .ok () { c with outbox := c.outbox ++ sent.map (Sent.mk cli.id) } ∧
    Conn.writeReplies sent = some (route.frame j)

end BodyRoute

/-! ## What a link does to a job -/

namespace Link

def size (j : Job) : Link → Int64
  | direct => j.bodySize
  | proxy _ => j.bodySize.toInt32.toInt64

def body (j : Job) : Link → Option Bytes
  | direct => j.body
  | proxy _ => wireBytes j.body

variable (link : Link) (j : Job)

theorem job_id : (link.job j).id = j.id := by
  cases link with
  | direct => rfl
  | proxy cu => exact UInt64.toUInt64_toInt64 j.id

theorem job_bodySize : (link.job j).bodySize = link.size j := by
  cases link <;> rfl

theorem job_body : (link.job j).body = link.body j := by
  cases link <;> rfl

theorem reservation_eq {clientID : ClientID} (serves : link.Serves clientID) (reqID : ReqID) :
    ∃ r, link.reservation reqID clientID j = some r ∧
      r.requestId = reqID ∧ r.clientId = clientID ∧ r.jobId = j.id ∧ r.status = .matched ∧
      r.bodySize = link.size j ∧ r.body = link.body j := by
  cases link with
  | direct => exact ⟨_, rfl, rfl, rfl, rfl, rfl, rfl, rfl⟩
  | proxy cu =>
      simp only [reservation, toV1Reservation, matchedReservation, ClientURI.parse_toClientID]
      exact ⟨_, rfl, rfl, serves, UInt64.toUInt64_toInt64 j.id, rfl, rfl, rfl⟩

end Link

/-! ## What the processor sends -/

namespace BodyRoute

/-- The two responses of a job. -/
def responses (link : Link) (clientID : ClientID) (reqID : ReqID) (j : Job) (route : BodyRoute) :
    List CmdResponse :=
  [⟨reqID, clientID, some (route.word ++ CmdProcessor.decimal j.id.toNat ++ text " " ++
      CmdProcessor.decimal (link.size j).toInt), true⟩,
    ⟨reqID, clientID, link.body j, false⟩]

variable {c : CmdProcessor} {link : Link} {cli : CoreClient} {req : CmdRequest} {j : Job}

open CmdProcessor in
theorem replyReservation_responses {r : Reservation} {route : BodyRoute}
    (isReserve : route.word = text "RESERVED ")
    (same : r.requestId = req.id ∧ r.clientId = cli.id ∧ r.jobId = j.id ∧
      r.status = .matched ∧ r.bodySize = link.size j ∧ r.body = link.body j)
    (opened : cli.id ∉ c.closed) (reqID : ReqID) :
    replyReservation (some r) (some cli) reqID c =
      .ok () { c with
        outbox := c.outbox ++ (route.responses link cli.id req.id j).map (Sent.mk cli.id) } := by
  obtain ⟨sameReq, _, sameJob, isMatched, sameSize, sameBody⟩ := same
  unfold replyReservation
  rw [Prog.deref_some, Prog.pure_andThen]
  simp only [isMatched, Prog.bind_apply, sendCmdResponse_apply, opened, not_false_eq_true,
    Outcome.ok_andThen, List.append_assoc, responses, isReserve, sameReq, sameJob, sameSize,
    sameBody, List.map_cons, List.map_nil, List.cons_append, List.nil_append]

open CmdProcessor in
theorem replyPeek_responses (opened : cli.id ∉ c.closed) :
    replyPeek cli req (.ok (link.job j)) c =
      .ok none { c with
        outbox := c.outbox ++ (peek.responses link cli.id req.id j).map (Sent.mk cli.id) } := by
  simp only [replyPeek, Prog.bind_apply, sendCmdResponse_apply, opened, not_false_eq_true,
    Outcome.ok_andThen, responses, word, link.job_id, link.job_bodySize, link.job_body,
    List.map_cons, List.map_nil, List.append_assoc, List.cons_append, List.nil_append]
  rfl

open CmdProcessor in
/-- On every route the processor sends the two responses of the job. -/
theorem reply_responses (route : BodyRoute) (serves : link.Serves cli.id)
    (opened : cli.id ∉ c.closed) (listed : c.clients.find cli.id = some cli) :
    route.reply link cli req j c =
      .ok () { c with
        outbox := c.outbox ++ (route.responses link cli.id req.id j).map (Sent.mk cli.id) } := by
  obtain ⟨r, arrives, same⟩ := link.reservation_eq j serves req.id
  cases route with
  | peek =>
      rw [reply, Prog.bind_apply, replyPeek_responses opened]
      rfl
  | reserve =>
      rw [reply, arrives]
      exact replyReservation_responses rfl same opened req.id
  | tick =>
      rw [reply, arrives, Option.toList_some]
      unfold replyReservations
      have replies := replyReservation_responses (show tick.word = _ from rfl) same opened
        r.requestId
      rw [List.foldlM_cons, Prog.bind_apply, Prog.gets_bind, same.2.1, listed, replies]
      rfl

theorem writeReplies_responses (route : BodyRoute) (clientID : ClientID) (reqID : ReqID) :
    Conn.writeReplies (route.responses link clientID reqID j) =
      some (route.word ++ CmdProcessor.decimal j.id.toNat ++ text " " ++
        CmdProcessor.decimal (link.size j).toInt ++ text "\r\n" ++
          ((link.body j).map Conn.replyBytes).getD []) := by
  simp [Conn.writeReplies, responses, Conn.replyBytes]

end BodyRoute

/-! ## Requests -/

/-- The requests whose handler gets a job from a state machine in its own process, which is
left as `jsm`. -/
inductive Asks (env : RequestEnv) (c : CmdProcessor) (cli : CoreClient) (req : CmdRequest)
    (j : Job) (jsm : JSM) : BodyRoute → Prop where
  | peek {id : JobID} (isPeek : req.cmdType = .peek) (named : req.cmd = .id id)
      (gives : getJob id c.jsm = .ok j jsm) : Asks env c cli req j jsm .peek
  | peekTube {pf : TubeName → JSMProg Nat}
      (isPeek : req.cmdType = .peekReady ∧ pf = peekReadyJob ∨
        req.cmdType = .peekDelayed ∧ pf = peekDelayedJob ∨
        req.cmdType = .peekBuried ∧ pf = peekBuriedJob)
      (gives : CmdProcessor.peekTube pf cli.useTube c.jsm = .ok j jsm) :
      Asks env c cli req j jsm .peek
  | reserve (isReserve : req.cmdType = .reserve)
      (gives : appendReservation cli.id req.id (env.order.visit cli.watchingTubes.names) env.now
        (env.later + c.maxReserveTimeoutSecs) c.jsm =
          .ok (matchedReservation req.id ⟨cli.id, 0⟩ j) jsm) :
      Asks env c cli req j jsm .reserve
  | reserveWithTimeout {timeoutSeconds : Int64} (isReserve : req.cmdType = .reserveWithTimeout)
      (named : req.cmd = .reserveWithTimeout timeoutSeconds)
      (allowed : ¬ timeoutSeconds > c.maxReserveTimeoutSecs)
      (gives : appendReservation cli.id req.id (env.order.visit cli.watchingTubes.names) env.now
        (env.later + timeoutSeconds) c.jsm =
          .ok (matchedReservation req.id ⟨cli.id, 0⟩ j) jsm) :
      Asks env c cli req j jsm .reserve

namespace CmdProcessor

variable {env : RequestEnv} {c : CmdProcessor} {cli : CoreClient} {req : CmdRequest}

theorem callJSM_of_ok {α : Type} {call : JSMProg α} {value : α} {jsm : JSM}
    (returns : call c.jsm = .ok value jsm) : callJSM call c = .ok (.ok value) { c with jsm } := by
  simp only [callJSM, returns]

theorem processRequest_of_handle {after : CmdProcessor} (notQuit : req.cmdType ≠ .quit)
    (listed : c.clients.find req.clientID = some cli)
    (handles : handle env cli req c = .ok none after) :
    processRequest env req c = .ok () after := by
  simp only [processRequest, Prog.bind_apply, Prog.gets_apply, Outcome.ok_andThen, listed,
    Prog.deref_some, Prog.pure_apply, handles, sendLast, closeIf, notQuit, decide_false]
  rfl

end CmdProcessor

open CmdProcessor in
/-- A request that gets a job is replied on its route. -/
theorem Asks.processRequest_eq {env : RequestEnv} {c : CmdProcessor} {cli : CoreClient}
    {req : CmdRequest} {j : Job} {jsm : JSM} {route : BodyRoute}
    (asks : Asks env c cli req j jsm route) (listed : c.clients.find req.clientID = some cli)
    (opened : cli.id ∉ c.closed) :
    processRequest env req c = route.reply .direct cli req j { c with jsm } := by
  have serves : Link.direct.Serves cli.id := trivial
  have openedHere : cli.id ∉ { c with jsm }.closed := opened
  have listedHere : { c with jsm }.clients.find cli.id = some cli := by
    rw [c.clients.keyed _ _ listed]
    exact listed
  have replies : route.reply .direct cli req j { c with jsm } = _ :=
    BodyRoute.reply_responses route serves openedHere listedHere
  have peekReplies : replyPeek cli req (.ok (Link.direct.job j)) { c with jsm } = _ :=
    BodyRoute.replyPeek_responses openedHere
  rw [replies]
  cases asks with
  | peek isPeek named gives =>
      apply processRequest_of_handle (by rw [isPeek]; decide) listed
      simp only [handle, isPeek, CmdProcessor.peek, named, Prog.bind_apply, callJSM_of_ok gives,
        Outcome.ok_andThen]
      exact peekReplies
  | peekTube isPeek gives =>
      rcases isPeek with ⟨isPeek, rfl⟩ | ⟨isPeek, rfl⟩ | ⟨isPeek, rfl⟩
      all_goals
        apply processRequest_of_handle (by rw [isPeek]; decide) listed
        simp only [handle, isPeek, callPeekFunc, Prog.bind_apply, callJSM_of_ok gives,
          Outcome.ok_andThen]
        exact peekReplies
  | reserve isReserve gives =>
      apply processRequest_of_handle (by rw [isReserve]; decide) listed
      simp only [handle, isReserve, CmdProcessor.reserve, CmdProcessor.appendReservation,
        Prog.bind_apply, Prog.gets_apply, callJSM_of_ok gives, Outcome.ok_andThen]
      change (BodyRoute.reserve.reply .direct cli req j { c with jsm }).andThen _ = _
      rw [replies]
      rfl
  | reserveWithTimeout isReserve named allowed gives =>
      apply processRequest_of_handle (by rw [isReserve]; decide) listed
      simp only [handle, isReserve, CmdProcessor.reserveWithTimeout, named,
        CmdProcessor.appendReservation, Prog.bind_apply, Prog.gets_apply, allowed, if_false,
        callJSM_of_ok gives, Outcome.ok_andThen]
      change (BodyRoute.reserve.reply .direct cli req j { c with jsm }).andThen _ = _
      rw [replies]
      rfl

/-! ## Framing -/

namespace Link

variable {link : Link} {j : Job}

theorem body_eq_some {b : Bytes} (arrives : link.body j = some b) : j.body = some b := by
  cases link with
  | direct => exact arrives
  | proxy cu =>
      rw [body] at arrives
      unfold wireBytes at arrives
      split at arrives
      next => cases arrives
      next => cases arrives
      next whole => rw [whole, arrives]

theorem body_eq_none (isNil : link.body j = none) : j.body.getD [] = [] := by
  cases link with
  | direct =>
      rw [show j.body = none from isNil]
      rfl
  | proxy cu =>
      rw [body] at isNil
      unfold wireBytes at isNil
      split at isNil
      next missing => rw [missing]; rfl
      next empty => rw [empty]; rfl
      next => cases isNil

theorem carries_iff (nonNegative : 0 ≤ j.bodySize.toInt) :
    link.Carries j ↔ link.body j ≠ none ∧ link.size j = j.bodySize := by
  cases link with
  | direct => simp [Carries, body, size]
  | proxy cu =>
      rw [Carries, body, size, toInt64_toInt32_eq_iff nonNegative, ← and_assoc]
      apply and_congr_left'
      unfold wireBytes
      split <;> simp_all

end Link

namespace BodyRoute

variable {c : CmdProcessor} {link : Link} {cli : CoreClient} {req : CmdRequest} {j : Job}

theorem framed_iff_written (route : BodyRoute) (serves : link.Serves cli.id)
    (opened : cli.id ∉ c.closed) (listed : c.clients.find cli.id = some cli) :
    route.Framed c link cli req j ↔
      Conn.writeReplies (route.responses link cli.id req.id j) = some (route.frame j) := by
  have replies : route.reply link cli req j c = _ := reply_responses route serves opened listed
  constructor
  · rintro ⟨sent, sends, written⟩
    rw [replies] at sends
    have sameOutbox := congrArg CmdProcessor.outbox (Outcome.ok.inj sends).2
    have sameSent := List.append_cancel_left sameOutbox
    rw [List.map_inj_right (fun _ _ same => (Sent.mk.inj same).2)] at sameSent
    rw [sameSent]
    exact written
  · intro written
    exact ⟨_, replies, written⟩

/-- A job whose body has the size that it states is framed exactly when its body reaches the
processor: on the way through a proxy an empty body is lost, and so is a size of more than
31 bits. -/
theorem framed_iff_carries (route : BodyRoute) (c : CmdProcessor) (link : Link)
    (cli : CoreClient) (req : CmdRequest) (j : Job)
    (sized : ((j.body.getD []).length : Int) = j.bodySize.toInt) (serves : link.Serves cli.id)
    (opened : cli.id ∉ c.closed) (listed : c.clients.find cli.id = some cli) :
    route.Framed c link cli req j ↔ link.Carries j := by
  rw [framed_iff_written route serves opened listed, writeReplies_responses, Option.some_inj,
    Link.carries_iff (by omega), frame]
  cases arrives : link.body j with
  | none =>
      have isEmpty := Link.body_eq_none arrives
      rw [isEmpty] at sized ⊢
      have zero : j.bodySize = 0 := Int64.toInt_inj.mp sized.symm
      have sizeZero : link.size j = 0 := by
        cases link with
        | direct => exact zero
        | proxy cu => rw [Link.size, zero]; rfl
      simp [sizeZero, text]
  | some b =>
      have isBody := Link.body_eq_some arrives
      rw [isBody, Option.getD_some] at sized ⊢
      simp only [Option.map_some, Option.getD_some, Conn.replyBytes, List.append_assoc,
        List.append_cancel_left_eq, List.append_cancel_right_eq, ne_eq, reduceCtorEq,
        not_false_eq_true, true_and]
      rw [CmdProcessor.decimal_eq_natCast_iff, sized, Int64.toInt_inj]

/-- A client of a processor that is behind a proxy. -/
def remoteClient : CoreClient :=
  newClient someClient.clientID defaultTubeName

/-- A processor with this client. -/
def remoteProcessor : CmdProcessor where
  clients := ClientSet.empty.set remoteClient
  jsm := newJSM
  maxReserveTimeoutSecs := 3600
  outbox := []
  closed := []

def reserveRequest : CmdRequest where
  id := text "1"
  clientID := someClient.clientID
  cmdType := .reserve
  cmd := .none

/-- The job that a put through a proxy makes on a new state machine. -/
def remoteJob (body : Bytes) : Option Job :=
  let req : PutRequest :=
    { priority := 0
      delay := 0
      ttr := 60
      tubeName := defaultTubeName
      bodySize := Int32.ofNat body.length
      body := some body }
  (applyPut 0 req.wire newJSM).state?.bind (·.recordOf 1)

theorem framed_iff_carries_twoBytes :
    ∃ j, remoteJob (text "hi") = some j ∧
      reserve.Framed remoteProcessor (.proxy someClient) remoteClient reserveRequest j := by
  have made : (remoteJob (text "hi")).map
      (fun j => decide (j.body = some (text "hi") ∧ j.bodySize = 2)) = some true := by
    decide +kernel
  obtain ⟨j, isJob, is⟩ := Option.map_eq_some_iff.mp made
  obtain ⟨body, size⟩ := of_decide_eq_true is
  have sized : ((j.body.getD []).length : Int) = j.bodySize.toInt := by
    rw [body, size]
    decide
  refine ⟨j, isJob, ?_⟩
  apply (framed_iff_carries reserve remoteProcessor (.proxy someClient) remoteClient
    reserveRequest j sized rfl (by decide) rfl).mpr
  rw [Link.Carries, body, size]
  decide

/-- An empty job is put and reserved through a proxy.  Its body is stated to have no bytes,
and the line end after them is never written. -/
theorem emptyBody_unframed :
    ∃ j, remoteJob [] = some j ∧ ((j.body.getD []).length : Int) = j.bodySize.toInt ∧
      Conn.writeReplies (reserve.responses (.proxy someClient) remoteClient.id reserveRequest.id
        j) = some (text "RESERVED 1 0\r\n") ∧
      reserve.frame j = text "RESERVED 1 0\r\n\r\n" ∧
      ¬ reserve.Framed remoteProcessor (.proxy someClient) remoteClient reserveRequest j := by
  have made : (remoteJob []).map
      (fun j => decide (j.body = none ∧ j.bodySize = 0 ∧ j.id = 1)) = some true := by
    decide +kernel
  obtain ⟨j, isJob, is⟩ := Option.map_eq_some_iff.mp made
  obtain ⟨body, size, id⟩ := of_decide_eq_true is
  have written : Conn.writeReplies (reserve.responses (.proxy someClient) remoteClient.id
      reserveRequest.id j) = some (text "RESERVED 1 0\r\n") := by
    rw [writeReplies_responses, Link.size, Link.body, body, size, id]
    decide +kernel
  have framed : reserve.frame j = text "RESERVED 1 0\r\n\r\n" := by
    rw [frame, body, id]
    decide +kernel
  refine ⟨j, isJob, ?_, written, framed, ?_⟩
  · rw [body, size]
    decide
  · have serves : (Link.proxy someClient).Serves remoteClient.id := rfl
    have opened : remoteClient.id ∉ remoteProcessor.closed := by decide
    rw [framed_iff_written reserve serves opened rfl, written, framed]
    decide +kernel

end BodyRoute

end Coolbeans
