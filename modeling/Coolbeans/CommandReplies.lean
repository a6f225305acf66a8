import Coolbeans.ClientRuns
import Coolbeans.CommandProcessor
import Coolbeans.RequestLedger

/-!
# What the command processor replies

Handling a request has one of two results.  Either the processor sends responses to the
client of the request, of which the last and only the last is final, and no awaited request
of the state machine changes; or it sends nothing, and the state machine awaits the
request.  A tick sends such a reply for each of its reservations.
-/

namespace Coolbeans

open FiniteMap StatefulProgram

/-! ## Replies -/

/-- A response goes to a client and carries the ids of it and of its request. -/
def Sent.AddressedTo (clientID : ClientID) (reqID : ReqID) (sent : Sent) : Prop :=
  sent.channel = clientID ∧ sent.resp.requestID = reqID ∧ sent.resp.clientID = clientID

/-- Responses to a request, of which the last one is final and no other. -/
structure Replies (clientID : ClientID) (reqID : ReqID) (outbox : List Sent) : Prop where
  addressed : ∀ sent ∈ outbox, sent.AddressedTo clientID reqID
  last : ∃ partials final, outbox = partials ++ [final] ∧
    (∀ sent ∈ partials, sent.resp.hasMore = true) ∧ final.resp.hasMore = false

/-- The commands that ask for a reservation. -/
def CmdRequest.IsReserve (req : CmdRequest) : Prop :=
  req.cmdType = .reserve ∨ req.cmdType = .reserveWithTimeout

/-- The state machine awaits one request more. -/
def NowAwaits (clientID : ClientID) (reqID : ReqID) (before after : JSM) : Prop :=
  ∃ watchedTubes, ∀ request, after.Awaits request ↔
    before.Awaits request ∨ request = ⟨clientID, reqID, watchedTubes⟩

/-- The argument of a request is the one that the handler of its command takes. -/
def CmdRequest.Typed (req : CmdRequest) : Prop :=
  match req.cmdType with
  | .bury => ∃ arg, req.cmd = .bury arg
  | .delete | .kickJob | .peek | .touch | .statsJob => ∃ id, req.cmd = .id id
  | .kick => ∃ bound, req.cmd = .kickN bound
  | .put => ∃ arg, req.cmd = .put arg
  | .ignore | .use | .watch | .statsTube => ∃ tubeName, req.cmd = .tube tubeName
  | .release => ∃ arg, req.cmd = .release arg
  | .reserveWithTimeout => ∃ seconds, req.cmd = .reserveWithTimeout seconds
  | _ => True

theorem CmdRequest.typed_of_newCmdRequest {id : ReqID} {cmdData : CmdData} {clientID : ClientID}
    {req : CmdRequest} (accepted : newCmdRequest id cmdData clientID = .ok req) :
    req.Typed ∧ req.id = id ∧ req.clientID = clientID := by
  obtain ⟨cmd, parsed, made⟩ := bind_eq_ok accepted
  cases made
  refine ⟨?_, rfl, rfl⟩
  unfold newCmdArg at parsed
  unfold Typed
  dsimp only
  cases isType : cmdData.cmdType
  all_goals
    simp only [isType] at parsed ⊢
  all_goals
    obtain ⟨arg, _, same⟩ := bind_eq_ok parsed
    cases same
    exact ⟨arg, rfl⟩

theorem Replies.single {clientID : ClientID} {reqID : ReqID} {final : Sent}
    (addressed : final.AddressedTo clientID reqID) (isFinal : final.resp.hasMore = false) :
    Replies clientID reqID [final] := by
  refine ⟨?_, [], final, rfl, by simp, isFinal⟩
  intro sent member
  rw [List.mem_singleton.mp member]
  exact addressed

theorem Replies.pair {clientID : ClientID} {reqID : ReqID} {first final : Sent}
    (firstAddressed : first.AddressedTo clientID reqID)
    (finalAddressed : final.AddressedTo clientID reqID) (hasMore : first.resp.hasMore = true)
    (isFinal : final.resp.hasMore = false) : Replies clientID reqID [first, final] := by
  refine ⟨?_, [first], final, rfl, by simp [hasMore], isFinal⟩
  intro sent member
  rcases List.mem_pair.mp member with isFirst | isLast
  · rw [isFirst]
    exact firstAddressed
  · rw [isLast]
    exact finalAddressed

/-! ## Calls -/

namespace CmdProcessor

variable {c : CmdProcessor} {cli : CoreClient} {req : CmdRequest} {env : RequestEnv}

theorem ends_callJSM {α : Type} {call : JSMProg α} {convert : α → Reply} {op : Op}
    (containers : ContainersOk .ownTouches c.jsm) (called : WellCalled c.jsm op)
    (isRun : op.run = convert <$> call) :
    (callJSM call c).Ends
      (fun result after => ∃ jsm, after = { c with jsm } ∧ ContainersOk .ownTouches jsm ∧
        RequestStep c.jsm op (result.map convert) jsm)
      (fun _ _ => False) False := by
  have ends := admissible_wellCalled.ends_call containers called isRun
  unfold callJSM
  cases result : call c.jsm with
  | ok value jsm =>
      rw [result] at ends
      exact ⟨jsm, rfl, ends⟩
  | err error jsm =>
      rw [result] at ends
      exact ⟨jsm, rfl, ends⟩
  | panic cause =>
      rw [result] at ends
      exact ends ⟨by simp [Kinds.ownTouches], called.2.tubes⟩

theorem ends_callJSM_plain {α : Type} {call : JSMProg α} {convert : α → Reply} {op : Op}
    (containers : ContainersOk .ownTouches c.jsm) (called : WellCalled c.jsm op)
    (plain : ¬ op.Reserves) (isRun : op.run = convert <$> call) :
    (callJSM call c).Ends
      (fun _ after => ∃ jsm, after = { c with jsm } ∧ ContainersOk .ownTouches jsm ∧
        Settles [] c.jsm jsm)
      (fun _ _ => False) False := by
  apply (ends_callJSM containers called isRun).mono _ (fun _ _ => id) id
  intro _ _ done
  obtain ⟨jsm, left, kept, step⟩ := done
  exact ⟨jsm, left, kept, step.settles_of_plain plain⟩

theorem sendCmdResponse_apply (reqID : ReqID) (body : Option Bytes) (hasMore : Bool)
    (opened : cli.id ∉ c.closed) :
    sendCmdResponse reqID cli body hasMore c =
      .ok () { c with outbox := c.outbox ++ [⟨cli.id, ⟨reqID, cli.id, body, hasMore⟩⟩] } :=
  if_neg opened

/-! ## Handlers -/

/-- The processor is about to handle a request. -/
structure Handles (c : CmdProcessor) (cli : CoreClient) (env : RequestEnv) (req : CmdRequest) :
    Prop where
  containers : ContainersOk .ownTouches c.jsm
  found : c.clients.find req.clientID = some cli
  named : req.clientID ≠ []
  opened : req.clientID ∉ c.closed
  quiet : c.outbox = []
  clock : env.now.toInt < 2 ^ 62

theorem Handles.cliID (handles : Handles c cli env req) : cli.id = req.clientID :=
  c.clients.keyed _ _ handles.found

/-- A handler has done its work and leaves a response to be sent, or none. -/
structure Handled (req : CmdRequest) (before : CmdProcessor) (resp : Option CmdResponse)
    (after : CmdProcessor) : Prop where
  containers : ContainersOk .ownTouches after.jsm
  find : ∀ id, after.clients.find id = none ↔
    before.clients.find id = none ∨ req.cmdType = .quit ∧ id = req.clientID
  closed : after.closed = before.closed
  outcome :
    (Replies req.clientID req.id (after.outbox ++ resp.toList.map (Sent.mk req.clientID)) ∧
      Settles [] before.jsm after.jsm) ∨
    after.outbox = [] ∧ resp = none ∧ req.IsReserve ∧
      NowAwaits req.clientID req.id before.jsm after.jsm

/-- What every handler promises. -/
def Meets (handler : CmdProg (Option CmdResponse)) (req : CmdRequest) (c : CmdProcessor) : Prop :=
  (handler c).Ends (fun resp after => Handled req c resp after) (fun _ _ => False) False

theorem handled_of_replies (notQuit : req.cmdType ≠ .quit) {jsm : JSM} {outbox : List Sent}
    {resp : Option CmdResponse} (containers : ContainersOk .ownTouches jsm)
    (settles : Settles [] c.jsm jsm)
    (replies : Replies req.clientID req.id (outbox ++ resp.toList.map (Sent.mk req.clientID))) :
    Handled req c resp { c with jsm, outbox } where
  containers := containers
  find := by simp [notQuit]
  closed := rfl
  outcome := Or.inl ⟨replies, settles⟩

theorem replies_single_response (req : CmdRequest) (msg : Bytes) :
    Replies req.clientID req.id ([] ++ (single req msg).toList.map (Sent.mk req.clientID)) :=
  Replies.single ⟨rfl, rfl, rfl⟩ rfl

/-- A handler that leaves the state machine alone and has one response. -/
theorem Handles.replied_single (handles : Handles c cli env req) (notQuit : req.cmdType ≠ .quit)
    {jsm : JSM} (containers : ContainersOk .ownTouches jsm) (settles : Settles [] c.jsm jsm)
    (msg : Bytes) : Handled req c (single req msg) { c with jsm } := by
  have handled := handled_of_replies notQuit containers settles (replies_single_response req msg)
  rw [← handles.quiet] at handled
  exact handled

theorem meets_replyCall {α : Type} {call : JSMProg α} {convert : α → Reply} {op : Op}
    {done : α → Bytes} {failed : Bytes} (handles : Handles c cli env req)
    (notQuit : req.cmdType ≠ .quit) (called : WellCalled c.jsm op) (plain : ¬ op.Reserves)
    (isRun : op.run = convert <$> call) : Meets (replyCall req call done failed) req c := by
  apply Prog.ends_bind (ends_callJSM_plain handles.containers called plain isRun)
  intro result after returned
  obtain ⟨jsm, rfl, containers, settles⟩ := returned
  cases result with
  | ok value => exact handles.replied_single notQuit containers settles _
  | error err => exact handles.replied_single notQuit containers settles _

/-! ### Two responses -/

theorem meets_replyPeek (handles : Handles c cli env req) (notQuit : req.cmdType ≠ .quit)
    {jsm : JSM} (containers : ContainersOk .ownTouches jsm) (settles : Settles [] c.jsm jsm)
    (job : Except Err Job) :
    (replyPeek cli req job { c with jsm }).Ends (fun resp after => Handled req c resp after)
      (fun _ _ => False) False := by
  have opened : cli.id ∉ c.closed := by
    rw [handles.cliID]
    exact handles.opened
  cases job with
  | error err => exact handles.replied_single notQuit containers settles _
  | ok j =>
      simp only [replyPeek, Prog.bind_apply, sendCmdResponse_apply, opened, not_false_eq_true,
        Outcome.ok_andThen]
      apply handled_of_replies notQuit containers settles
      rw [handles.quiet, handles.cliID]
      exact Replies.pair ⟨rfl, rfl, rfl⟩ ⟨rfl, rfl, rfl⟩ rfl rfl

theorem meets_replyYaml (handles : Handles c cli env req) (notQuit : req.cmdType ≠ .quit)
    (failed : Bytes) : Meets (replyYaml env cli req failed) req c := by
  have opened : cli.id ∉ c.closed := by
    rw [handles.cliID]
    exact handles.opened
  unfold Meets replyYaml
  cases env.yaml with
  | none => exact handles.replied_single notQuit handles.containers (.refl _) _
  | some b =>
      simp only [sendYamlResponse, Prog.bind_apply, sendCmdResponse_apply, opened,
        not_false_eq_true, Outcome.ok_andThen]
      apply handled_of_replies notQuit handles.containers (.refl _)
      rw [handles.quiet, handles.cliID]
      exact Replies.pair ⟨rfl, rfl, rfl⟩ ⟨rfl, rfl, rfl⟩ rfl rfl

theorem run_peekTube (pf : TubeName → JSMProg Nat) (tubeName : TubeName) :
    (do
      let entry ← pf tubeName
      Prog.gets fun jsm => Reply.job (jsm.jobOf entry)) = Reply.job <$> peekTube pf tubeName := by
  funext jsm
  rw [Prog.map_apply]
  unfold peekTube
  rw [Prog.bind_apply, Prog.bind_apply]
  cases pf tubeName jsm <;> rfl

/-! ### Clients -/

theorem Handles.replied_setClient (handles : Handles c cli env req)
    (notQuit : req.cmdType ≠ .quit) (changed : CoreClient) (sameId : changed.id = cli.id)
    (msg : Bytes) :
    Handled req c (single req msg) { c with clients := c.clients.set changed } where
  containers := handles.containers
  find := by
    intro id
    rw [ClientSet.find_set, sameId, handles.cliID]
    split
    next same => simp [same, handles.found, notQuit]
    next => simp [notQuit]
  closed := rfl
  outcome := by
    left
    dsimp only
    rw [handles.quiet]
    exact ⟨replies_single_response req msg, .refl _⟩

theorem meets_quit (handles : Handles c cli env req) (isQuit : req.cmdType = .quit) :
    Meets (quit cli req) req c := by
  have isFound : (c.clients.find cli.id).isSome = true := by
    rw [handles.cliID, handles.found]
    rfl
  unfold Meets quit
  simp only [Prog.bind_apply, Prog.gets_apply, Outcome.ok_andThen, Prog.insist_apply, isFound,
    if_true, Prog.modify_apply, Prog.pure_apply]
  refine ⟨handles.containers, ?_, rfl, ?_⟩
  · intro id
    dsimp only
    rw [ClientSet.find_remove, handles.cliID]
    split
    next same => simp [isQuit, same]
    next different => simp [different]
  · left
    dsimp only
    rw [handles.quiet]
    exact ⟨Replies.single ⟨rfl, rfl, rfl⟩ rfl, .refl _⟩

/-! ### Reservations -/

theorem replyReservation_apply {r : Reservation} (opened : cli.id ∉ c.closed)
    (status : r.status = .matched ∨ r.status = .timeout ∨ r.status = .deadlineSoon)
    (reqID : ReqID) :
    ∃ block, replyReservation (some r) (some cli) reqID c =
        .ok () { c with outbox := c.outbox ++ block } ∧
      Replies cli.id r.requestId block := by
  unfold replyReservation
  rw [Prog.deref_some, Prog.pure_andThen]
  rcases status with isMatched | isTimeout | isSoon
  · simp only [isMatched, Prog.bind_apply, sendCmdResponse_apply, opened, not_false_eq_true,
      Outcome.ok_andThen, List.append_assoc]
    refine ⟨_, rfl, ?_⟩
    exact Replies.pair ⟨rfl, rfl, rfl⟩ ⟨rfl, rfl, rfl⟩ rfl rfl
  · simp only [isTimeout]
    exact ⟨_, sendCmdResponse_apply _ _ _ opened, Replies.single ⟨rfl, rfl, rfl⟩ rfl⟩
  · simp only [isSoon]
    exact ⟨_, sendCmdResponse_apply _ _ _ opened, Replies.single ⟨rfl, rfl, rfl⟩ rfl⟩

theorem meets_appendReservation (handles : Handles c cli env req) (isReserve : req.IsReserve)
    (deadlineAt : Int64) :
    (appendReservation env cli req.id env.now deadlineAt c).Ends
      (fun _ after => Handled req c none after) (fun _ _ => False) False := by
  have notQuit : req.cmdType ≠ .quit := by
    rcases isReserve with isType | isType <;> simp [isType]
  have opened : cli.id ∉ c.closed := by
    rw [handles.cliID]
    exact handles.opened
  have called : WellCalled c.jsm (.appendReservation cli.id req.id
      (env.order.visit cli.watchingTubes.names) env.now deadlineAt) := by
    refine ⟨?_, ?_, ?_⟩
    · intro same
      injection same with isEmpty
      exact handles.named (handles.cliID ▸ isEmpty)
    · intro clock isClock
      cases isClock
      exact handles.clock
    · exact (env.order.perm _).nodup_iff.mpr cli.watchingTubes.nodup
  apply Prog.ends_bind (ends_callJSM handles.containers called rfl)
  intro result after returned
  obtain ⟨jsm, rfl, containers, step⟩ := returned
  cases result with
  | error err =>
      have settles : Settles [] c.jsm jsm := by
        cases step with
        | kept _ settles => exact settles
      simp only [replyReservation, Prog.deref_some, Prog.pure_andThen, sendCmdResponse_apply,
        opened, not_false_eq_true]
      apply handled_of_replies notQuit containers settles
      rw [handles.quiet, handles.cliID]
      exact Replies.single ⟨rfl, rfl, rfl⟩ rfl
  | ok r =>
      cases step with
      | kept unreserved => exact absurd rfl ((unreserved trivial _ rfl).1 r)
      | queued _ status _ adds =>
          dsimp only [replyReservation]
          rw [Prog.deref_some, Prog.pure_andThen, status]
          refine ⟨containers, by simp [notQuit], rfl, Or.inr ⟨handles.quiet, rfl, isReserve, ?_⟩⟩
          rw [← handles.cliID]
          exact ⟨_, adds⟩
      | matched addressed status settles =>
          obtain ⟨block, sends, replies⟩ := replyReservation_apply (c := { c with jsm }) opened
            (Or.inl status) req.id
          dsimp only
          rw [sends]
          apply handled_of_replies notQuit containers settles
          rw [handles.quiet, ← handles.cliID, ← addressed.2]
          simpa using replies

/-! ## Requests -/

theorem Handles.wellCalled (handles : Handles c cli env req) {op : Op} (plain : ¬ op.Reserves)
    (clients : ∀ clientID ∈ op.clientID?, clientID = cli.id)
    (clocks : ∀ clock ∈ op.clock?, clock = env.now) : WellCalled c.jsm op := by
  refine ⟨?_, ?_, ?_⟩
  · intro isEmpty
    have same := clients [] isEmpty
    rw [handles.cliID] at same
    exact handles.named same.symm
  · intro clock isClock
    rw [clocks clock isClock]
    exact handles.clock
  · cases op with
    | appendReservation => exact absurd trivial plain
    | _ => trivial

theorem meets_call {α : Type} {call : JSMProg α} {convert : α → Reply} {done : α → Bytes}
    {failed : Bytes} (handles : Handles c cli env req) (notQuit : req.cmdType ≠ .quit) (op : Op)
    (plain : ¬ op.Reserves) (clients : ∀ clientID ∈ op.clientID?, clientID = cli.id)
    (clocks : ∀ clock ∈ op.clock?, clock = env.now) (isRun : op.run = convert <$> call) :
    Meets (replyCall req call done failed) req c :=
  meets_replyCall handles notQuit (handles.wellCalled plain clients clocks) plain isRun

theorem meets_peekCall {call : JSMProg Job} (handles : Handles c cli env req)
    (notQuit : req.cmdType ≠ .quit) (op : Op) (plain : ¬ op.Reserves)
    (clients : ∀ clientID ∈ op.clientID?, clientID = cli.id)
    (clocks : ∀ clock ∈ op.clock?, clock = env.now) (isRun : op.run = Reply.job <$> call) :
    Meets (do let j ← callJSM call; replyPeek cli req j) req c := by
  apply Prog.ends_bind (ends_callJSM_plain handles.containers
    (handles.wellCalled plain clients clocks) plain isRun)
  intro job after returned
  obtain ⟨jsm, rfl, containers, settles⟩ := returned
  exact meets_replyPeek handles notQuit containers settles job

theorem meets_handle (handles : Handles c cli env req) (typed : req.Typed) :
    Meets (handle env cli req) req c := by
  unfold CmdRequest.Typed at typed
  unfold handle
  cases isType : req.cmdType
  all_goals
    simp only [isType] at typed ⊢
  case quit => exact meets_quit handles isType
  all_goals
    have notQuit : req.cmdType ≠ .quit := by simp [isType]
  case bury =>
    obtain ⟨cmd, isArg⟩ := typed
    simp only [bury, isArg]
    exact meets_call handles notQuit (.bury env.now cmd.id cmd.pri cli.id) id
      (by simp [Op.clientID?]) (by simp [Op.clock?]) rfl
  case delete =>
    obtain ⟨id, isArg⟩ := typed
    simp only [delete, isArg]
    exact meets_call handles notQuit (.delete id cli.id) (fun holds => holds)
      (by simp [Op.clientID?]) (by simp [Op.clock?]) rfl
  case kick =>
    obtain ⟨bound, isArg⟩ := typed
    simp only [kickN, isArg]
    exact meets_call handles notQuit (.kickN cli.useTube bound) id
      (by simp [Op.clientID?]) (by simp [Op.clock?]) rfl
  case kickJob =>
    obtain ⟨id, isArg⟩ := typed
    simp only [kick, isArg]
    exact meets_call handles notQuit (.kick id) (fun holds => holds)
      (by simp [Op.clientID?]) (by simp [Op.clock?]) rfl
  case put =>
    obtain ⟨cmd, isArg⟩ := typed
    simp only [put, isArg]
    exact meets_call handles notQuit
      (.put env.now cmd.pri cmd.delay cmd.ttr cmd.size cmd.data cli.useTube) id
      (by simp [Op.clientID?]) (by simp [Op.clock?]) rfl
  case release =>
    obtain ⟨cmd, isArg⟩ := typed
    simp only [releaseWith, isArg]
    exact meets_call handles notQuit (.releaseWith env.now cmd.id cli.id cmd.pri cmd.delay) id
      (by simp [Op.clientID?]) (by simp [Op.clock?]) rfl
  case touch =>
    obtain ⟨id, isArg⟩ := typed
    simp only [touch, isArg]
    exact meets_call handles notQuit (.touch env.now id req.clientID) (fun holds => holds)
      (by simp [Op.clientID?, handles.cliID]) (by simp [Op.clock?]) rfl
  case peek =>
    obtain ⟨id, isArg⟩ := typed
    simp only [peek, isArg]
    exact meets_peekCall handles notQuit (.getJob id) (fun holds => holds)
      (by simp [Op.clientID?]) (by simp [Op.clock?]) rfl
  case peekBuried =>
    exact meets_peekCall handles notQuit (.peekBuriedJob cli.useTube) id
      (by simp [Op.clientID?]) (by simp [Op.clock?]) (run_peekTube _ _)
  case peekDelayed =>
    exact meets_peekCall handles notQuit (.peekDelayedJob cli.useTube) id
      (by simp [Op.clientID?]) (by simp [Op.clock?]) (run_peekTube _ _)
  case peekReady =>
    exact meets_peekCall handles notQuit (.peekReadyJob cli.useTube) id
      (by simp [Op.clientID?]) (by simp [Op.clock?]) (run_peekTube _ _)
  case use =>
    obtain ⟨tubeName, isArg⟩ := typed
    simp only [use, isArg]
    exact handles.replied_setClient notQuit { cli with useTube := tubeName } rfl _
  case watch =>
    obtain ⟨tubeName, isArg⟩ := typed
    simp only [watch, isArg]
    exact handles.replied_setClient notQuit
      { cli with watchingTubes := cli.watchingTubes.set tubeName } rfl _
  case ignore =>
    obtain ⟨tubeName, isArg⟩ := typed
    simp only [ignore, isArg]
    split
    · exact handles.replied_setClient notQuit
        { cli with watchingTubes := cli.watchingTubes.remove tubeName } rfl _
    · exact handles.replied_single notQuit handles.containers (.refl _) _
  case reserve =>
    unfold Meets reserve
    rw [Prog.gets_bind]
    apply Prog.ends_bind (meets_appendReservation handles (Or.inl isType) _)
    intro _ after handled
    exact handled
  case reserveWithTimeout =>
    obtain ⟨seconds, isArg⟩ := typed
    simp only [reserveWithTimeout, isArg]
    unfold Meets
    rw [Prog.gets_bind]
    split
    · exact handles.replied_single notQuit handles.containers (.refl _) _
    · apply Prog.ends_bind (meets_appendReservation handles (Or.inr isType) _)
      intro _ after handled
      exact handled
  case statsJob =>
    obtain ⟨id, isArg⟩ := typed
    simp only [statsJob, isArg]
    exact meets_replyYaml handles notQuit _
  case statsTube =>
    obtain ⟨tubeName, isArg⟩ := typed
    simp only [statsTube, isArg]
    exact meets_replyYaml handles notQuit _
  case stats => exact meets_replyYaml handles notQuit _
  case listTubes => exact meets_replyYaml handles notQuit _
  all_goals exact handles.replied_single notQuit handles.containers (.refl _) _

/-- What a request that has been processed has done. -/
structure Processed (req : CmdRequest) (before after : CmdProcessor) : Prop where
  containers : ContainersOk .ownTouches after.jsm
  find : ∀ id, after.clients.find id = none ↔
    before.clients.find id = none ∨ req.cmdType = .quit ∧ id = req.clientID
  closed : ∀ id ∈ after.closed, id ∈ before.closed ∨ req.cmdType = .quit ∧ id = req.clientID
  outcome :
    (Replies req.clientID req.id after.outbox ∧ Settles [] before.jsm after.jsm) ∨
    after.outbox = [] ∧ req.IsReserve ∧ NowAwaits req.clientID req.id before.jsm after.jsm

theorem ends_processRequest (handles : Handles c cli env req) (typed : req.Typed) :
    (processRequest env req c).Ends (fun _ after => Processed req c after)
      (fun _ _ => False) False := by
  unfold processRequest
  rw [Prog.gets_bind, handles.found, Prog.deref_some, Prog.pure_andThen]
  apply Prog.ends_bind (meets_handle handles typed)
  intro resp after handled
  have opened : cli.id ∉ after.closed := by
    rw [handled.closed, handles.cliID]
    exact handles.opened
  have sends : sendLast cli resp after = .ok ()
      { after with outbox := after.outbox ++ resp.toList.map (Sent.mk req.clientID) } := by
    rw [← handles.cliID]
    cases resp with
    | none => simp [sendLast]
    | some resp => exact if_neg opened
  rw [Prog.bind_apply, sends, Outcome.ok_andThen]
  have outcome : (Replies req.clientID req.id
      (after.outbox ++ resp.toList.map (Sent.mk req.clientID)) ∧ Settles [] c.jsm after.jsm) ∨
      after.outbox ++ resp.toList.map (Sent.mk req.clientID) = [] ∧ req.IsReserve ∧
        NowAwaits req.clientID req.id c.jsm after.jsm := by
    rcases handled.outcome with replied | ⟨quiet, isNone, awaits⟩
    · exact Or.inl replied
    · exact Or.inr ⟨by simp [quiet, isNone], awaits⟩
  by_cases isQuit : req.cmdType = .quit
  · simp only [closeIf, isQuit, decide_true, if_true]
    refine ⟨handled.containers, handled.find, fun id member => ?_, outcome⟩
    rcases List.mem_append.mp member with old | new
    · exact Or.inl (handled.closed ▸ old)
    · exact Or.inr ⟨isQuit, (List.mem_singleton.mp new).trans handles.cliID⟩
  · simp only [closeIf, isQuit, decide_false, Bool.false_eq_true, if_false]
    exact ⟨handled.containers, handled.find, fun id member => Or.inl (handled.closed ▸ member),
      outcome⟩

/-! ## Ticks -/

/-- The replies to reservations, one after the other. -/
inductive RepliesToAll : List Reservation → List Sent → Prop where
  | nil : RepliesToAll [] []
  | cons {r : Reservation} {resv : List Reservation} {block outbox : List Sent}
      (first : Replies r.clientId r.requestId block) (rest : RepliesToAll resv outbox) :
      RepliesToAll (r :: resv) (block ++ outbox)

theorem replyReservations_apply {resv : List Reservation}
    (present : ∀ r ∈ resv, c.clients.find r.clientId ≠ none)
    (opened : ∀ r ∈ resv, r.clientId ∉ c.closed)
    (statuses : ∀ r ∈ resv,
      r.status = .matched ∨ r.status = .timeout ∨ r.status = .deadlineSoon) :
    ∃ outbox, replyReservations resv c = .ok () { c with outbox := c.outbox ++ outbox } ∧
      RepliesToAll resv outbox := by
  induction resv generalizing c with
  | nil => exact ⟨[], by simp [replyReservations], .nil⟩
  | cons r resv induction =>
      obtain ⟨cli, found⟩ := Option.ne_none_iff_exists'.mp (present r List.mem_cons_self)
      have cliID := c.clients.keyed _ _ found
      have isOpen : cli.id ∉ c.closed := by
        rw [cliID]
        exact opened r List.mem_cons_self
      obtain ⟨block, sends, replies⟩ := replyReservation_apply isOpen
        (statuses r List.mem_cons_self) r.requestId
      rw [cliID] at replies
      obtain ⟨outbox, rest, repliesToAll⟩ := induction (c := { c with outbox := c.outbox ++ block })
        (fun other member => present other (List.mem_cons_of_mem _ member))
        (fun other member => opened other (List.mem_cons_of_mem _ member))
        (fun other member => statuses other (List.mem_cons_of_mem _ member))
      refine ⟨block ++ outbox, ?_, .cons replies repliesToAll⟩
      rw [← List.append_assoc, ← rest]
      unfold replyReservations
      rw [List.foldlM_cons, Prog.bind_apply, Prog.gets_bind, found, sends, Outcome.ok_andThen]

/-- What a tick has done. -/
structure Ticked (before after : CmdProcessor) (resv : List Reservation) : Prop where
  containers : ContainersOk .ownTouches after.jsm
  clients : after.clients = before.clients
  closed : after.closed = before.closed
  settles : Settles resv before.jsm after.jsm
  replies : RepliesToAll resv after.outbox

theorem ends_runTick {now : Int64} {walk : TubeWalk} (containers : ContainersOk .ownTouches c.jsm)
    (clock : now.toInt < 2 ^ 62) (quiet : c.outbox = [])
    (present : ∀ request, c.jsm.Awaits request → c.clients.find request.clientId ≠ none ∧
      request.clientId ∉ c.closed) :
    (runTick now walk c).Ends (fun _ after => ∃ resv, Ticked c after resv)
      (fun _ _ => False) False := by
  apply Prog.ends_bind (ends_callJSM containers (wellCalled_tick clock) rfl)
  intro result after returned
  obtain ⟨jsm, rfl, kept, step⟩ := returned
  cases result with
  | error err =>
      cases step with
      | kept _ settles => exact ⟨[], kept, rfl, rfl, settles, by rw [quiet]; exact .nil⟩
  | ok resv =>
      cases step with
      | kept unreserved => exact absurd rfl ((unreserved trivial _ rfl).2 resv)
      | ticked statuses settles =>
          have known : ∀ r ∈ resv, c.clients.find r.clientId ≠ none ∧ r.clientId ∉ c.closed := by
            intro r member
            obtain ⟨request, awaits, sameClient, _⟩ := settles.awaited r member
            rw [sameClient]
            exact present request awaits
          obtain ⟨outbox, sends, repliesToAll⟩ := replyReservations_apply (c := { c with jsm })
            (fun r member => (known r member).1) (fun r member => (known r member).2) statuses
          dsimp only
          rw [sends, quiet]
          exact ⟨resv, kept, rfl, rfl, settles, repliesToAll⟩

end CmdProcessor

end Coolbeans
