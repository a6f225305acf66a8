import Coolbeans.ConnectedClients

/-!
# One final reply to every request

In every state that the command processor and its connections reach, the state machine
awaits the requests that connections wait for, and only these.  So every request gets one
final reply, a reservation of a tick is for a client that is still there, and no event
makes the loop of the processor panic or block.
-/

namespace Coolbeans

open FiniteMap StatefulProgram

/-! ## The invariant -/

/-- The state machine awaits the requests that the connections wait for, and the processor
knows the clients that have not quit. -/
structure SystemOk (s : CmdSystem) : Prop where
  containers : ContainersOk .ownTouches s.proc.jsm
  conns : ConnsOk s.conns s.requests s.log
  named : ∀ id, s.conns id ≠ none → id ≠ []
  present : ∀ id, s.proc.clients.find id = none ↔ s.conns id = none ∨ s.conns id = some .stopped
  closed : ∀ id ∈ s.proc.closed, s.conns id = some .stopped
  awaited : ∀ request, s.proc.jsm.Awaits request →
    ∃ req, s.conns request.clientId = some (.awaiting req) ∧ req.id = request.reqID
  waiting : ∀ id req, s.conns id = some (.awaiting req) →
    req.IsReserve ∧ ∃ watchedTubes, s.proc.jsm.Awaits ⟨id, req.id, watchedTubes⟩

namespace SystemOk

variable {s : CmdSystem}

theorem start (maxReserveTimeoutSecs : Int64) : SystemOk (.start maxReserveTimeoutSecs) where
  containers := containersOk_newJSM
  conns := by constructor <;> simp [CmdSystem.start]
  named := by simp [CmdSystem.start]
  present := by simp [CmdSystem.start, ClientSet.find, ClientSet.empty]
  closed := by simp [CmdSystem.start]
  awaited := by
    intro request awaits
    obtain ⟨cli, member, _⟩ := awaits
    cases member
  waiting := by simp [CmdSystem.start]

theorem connect (ok : SystemOk s) {id : ClientID} (enabled : s.Enabled (.connect id)) :
    ∃ after, s.react (.connect id) = some after ∧ SystemOk after := by
  obtain ⟨named, unknown⟩ := enabled
  refine ⟨_, rfl, ok.containers, ok.conns.connect unknown, ?_, ?_, ?_, ?_, ?_⟩
  · intro other isConn
    by_cases same : other = id
    · rw [same]
      exact named
    · dsimp only at isConn
      rw [Function.update_of_ne same] at isConn
      exact ok.named other isConn
  · intro other
    dsimp only
    rw [ClientSet.find_set, Function.update_apply]
    change (if other = id then _ else _) = none ↔ _
    split
    · simp
    · exact ok.present other
  · intro other member
    have stopped := ok.closed other member
    have different : other ≠ id := by
      rintro rfl
      rw [unknown] at stopped
      cases stopped
    dsimp only
    rw [Function.update_of_ne different]
    exact stopped
  · intro request awaits
    obtain ⟨req, awaiting, sameId⟩ := ok.awaited request awaits
    have different : request.clientId ≠ id := by
      rintro rfl
      rw [unknown] at awaiting
      cases awaiting
    dsimp only
    rw [Function.update_of_ne different]
    exact ⟨req, awaiting, sameId⟩
  · intro other req awaiting
    dsimp only at awaiting
    rw [Function.update_apply] at awaiting
    split at awaiting
    · cases awaiting
    · exact ok.waiting other req awaiting

/-- The clients that the processor knows after a request whose connection is now in another
phase. -/
theorem clients_of_phase (ok : SystemOk s) {req : CmdRequest} {proc : CmdProcessor}
    (processed : CmdProcessor.Processed req { s.proc with outbox := [] } proc)
    (isIdle : s.conns req.clientID = some .idle) {phase : ConnPhase}
    (stops : phase = .stopped ↔ req.cmdType = .quit) :
    (∀ id, Function.update s.conns req.clientID (some phase) id ≠ none → id ≠ []) ∧
      (∀ id, proc.clients.find id = none ↔
        Function.update s.conns req.clientID (some phase) id = none ∨
          Function.update s.conns req.clientID (some phase) id = some .stopped) ∧
      ∀ id ∈ proc.closed, Function.update s.conns req.clientID (some phase) id = some .stopped := by
  refine ⟨fun id isConn => ?_, fun id => ?_, fun id member => ?_⟩
  · by_cases same : id = req.clientID
    · rw [same]
      exact ok.named _ (by simp [isIdle])
    · rw [Function.update_of_ne same] at isConn
      exact ok.named id isConn
  · have before := ok.present id
    rw [processed.find]
    by_cases same : id = req.clientID
    · subst id
      rw [isIdle] at before
      simp [Function.update_self, before, stops]
    · simp [before, same]
  · rcases processed.closed id member with old | ⟨isQuit, isClient⟩
    · have stopped := ok.closed id old
      have different : id ≠ req.clientID := by
        rintro rfl
        rw [isIdle] at stopped
        cases stopped
      rw [Function.update_of_ne different]
      exact stopped
    · rw [isClient, Function.update_self, stops.mpr isQuit]

theorem not_awaiting_of_idle (ok : SystemOk s) {req : CmdRequest}
    (isIdle : s.conns req.clientID = some .idle) {request : Request}
    (awaits : s.proc.jsm.Awaits request) : request.clientId ≠ req.clientID := by
  obtain ⟨other, awaiting, _⟩ := ok.awaited request awaits
  intro same
  rw [same, isIdle] at awaiting
  cases awaiting

/-- The connections receive what the processor sends for a request. -/
theorem received (ok : SystemOk s) {req : CmdRequest} {proc : CmdProcessor}
    (isIdle : s.conns req.clientID = some .idle) (fresh : ∀ old ∈ s.requests, old.id ≠ req.id)
    (processed : CmdProcessor.Processed req { s.proc with outbox := [] } proc) :
    ∃ conns, proc.outbox.foldlM Conns.receive (s.ask req).conns = some conns ∧
      SystemOk { s.ask req with proc, conns, log := s.log ++ proc.outbox } := by
  have asked := ok.conns.ask isIdle fresh
  have awaiting : (s.ask req).conns req.clientID = some (.awaiting req) :=
    Function.update_self _ _ _
  rcases processed.outcome with ⟨replies, settles⟩ | ⟨quiet, isReserve, watchedTubes, adds⟩
  · have stops : req.donePhase = .stopped ↔ req.cmdType = .quit := by
      unfold CmdRequest.donePhase
      split <;> simp_all
    have notAwaiting : ∀ other, req.donePhase ≠ .awaiting other := by
      intro other
      unfold CmdRequest.donePhase
      split <;> simp
    have answered := asked.answer awaiting replies
    rw [Function.update_idem] at answered
    obtain ⟨named, present, closed⟩ := ok.clients_of_phase processed isIdle stops
    refine ⟨Function.update s.conns req.clientID (some req.donePhase), ?_,
      processed.containers, answered, named, present, closed, ?_, ?_⟩
    · rw [replies.received awaiting]
      exact congrArg some (Function.update_idem _ _ _)
    · intro request awaits
      have before := ((settles.rest request).mp awaits).1
      dsimp only
      rw [Function.update_of_ne (ok.not_awaiting_of_idle isIdle before)]
      exact ok.awaited request before
    · intro id other otherAwaiting
      dsimp only at otherAwaiting
      rw [Function.update_apply] at otherAwaiting
      split at otherAwaiting
      · exact absurd (Option.some.inj otherAwaiting) (notAwaiting other)
      · obtain ⟨isReserve, watchedTubes, awaits⟩ := ok.waiting id other otherAwaiting
        exact ⟨isReserve, watchedTubes, (settles.rest _).mpr ⟨awaits, by simp⟩⟩
  · have stops : ConnPhase.awaiting req = .stopped ↔ req.cmdType = .quit := by
      rcases isReserve with isType | isType <;> simp [isType]
    obtain ⟨named, present, closed⟩ := ok.clients_of_phase processed isIdle stops
    refine ⟨(s.ask req).conns, by rw [quiet]; rfl, processed.containers, ?_, named, present,
      closed, ?_, ?_⟩
    · dsimp only
      rw [quiet, List.append_nil]
      exact asked
    · intro request awaits
      rcases (adds request).mp awaits with before | rfl
      · dsimp only [CmdSystem.ask]
        rw [Function.update_of_ne (ok.not_awaiting_of_idle isIdle before)]
        exact ok.awaited request before
      · exact ⟨req, awaiting, rfl⟩
    · intro id other otherAwaiting
      dsimp only [CmdSystem.ask] at otherAwaiting
      rw [Function.update_apply] at otherAwaiting
      split at otherAwaiting
      next same =>
        cases otherAwaiting
        subst id
        exact ⟨isReserve, watchedTubes, (adds _).mpr (Or.inr rfl)⟩
      next =>
        obtain ⟨otherReserve, watched, awaits⟩ := ok.waiting id other otherAwaiting
        exact ⟨otherReserve, watched, (adds _).mpr (Or.inl awaits)⟩

theorem dispatch (ok : SystemOk s) {reqID : ReqID} {cmdData : CmdData} {clientID : ClientID}
    {env : RequestEnv} (enabled : s.Enabled (.dispatch reqID cmdData clientID env)) :
    ∃ after, s.react (.dispatch reqID cmdData clientID env) = some after ∧ SystemOk after := by
  obtain ⟨isIdle, fresh, clock⟩ := enabled
  unfold CmdSystem.react
  dsimp only
  cases accepted : newCmdRequest reqID cmdData clientID with
  | error err => exact ⟨s, rfl, ok⟩
  | ok req =>
      obtain ⟨typed, rfl, rfl⟩ := CmdRequest.typed_of_newCmdRequest accepted
      obtain ⟨cli, found⟩ : ∃ cli, s.proc.clients.find req.clientID = some cli := by
        rw [← Option.ne_none_iff_exists']
        intro missing
        rw [ok.present, isIdle] at missing
        simp at missing
      have handles : CmdProcessor.Handles { s.proc with outbox := [] } cli env req :=
        { containers := ok.containers
          found
          named := ok.named _ (by simp [isIdle])
          opened := fun member => by
            have stopped := ok.closed _ member
            rw [isIdle] at stopped
            cases stopped
          quiet := rfl
          clock }
      obtain ⟨_, proc, runs, processed⟩ := (CmdProcessor.ends_processRequest handles typed).returns
      obtain ⟨conns, receives, systemOk⟩ := ok.received isIdle fresh processed
      refine ⟨_, ?_, systemOk⟩
      dsimp only
      unfold CmdSystem.round
      rw [show (s.ask req).proc = s.proc from rfl, runs]
      dsimp only
      rw [receives]
      rfl

theorem tick (ok : SystemOk s) {now : Int64} {walk : TubeWalk}
    (enabled : s.Enabled (.tick now walk)) :
    ∃ after, s.react (.tick now walk) = some after ∧ SystemOk after := by
  have known : ∀ request, s.proc.jsm.Awaits request →
      s.proc.clients.find request.clientId ≠ none ∧ request.clientId ∉ s.proc.closed := by
    intro request awaits
    obtain ⟨req, awaiting, _⟩ := ok.awaited request awaits
    constructor
    · rw [Ne, ok.present, awaiting]
      simp
    · intro member
      have stopped := ok.closed _ member
      rw [awaiting] at stopped
      cases stopped
  have ends : (CmdProcessor.runTick now walk { s.proc with outbox := [] }).Ends _ _ _ :=
    CmdProcessor.ends_runTick ok.containers enabled rfl known
  obtain ⟨_, proc, runs, resv, ticked⟩ := ends.returns
  have awaited : ∀ r ∈ resv, ∃ req, s.conns r.clientId = some (.awaiting req) ∧
      req.id = r.requestId := by
    intro r member
    obtain ⟨request, awaits, sameClient, sameReq⟩ := ticked.settles.awaited r member
    rw [sameClient, sameReq]
    exact ok.awaited request awaits
  obtain ⟨conns, receives, connsOk, phases⟩ :=
    ticked.replies.received ok.conns ticked.settles.nodup awaited
  -- a connection that waited for a reservation is idle now
  have phase : ∀ id, (id ∉ resv.map (·.clientId) ∧ conns id = s.conns id) ∨
      id ∈ resv.map (·.clientId) ∧ ∃ req, s.conns id = some (.awaiting req) ∧
        conns id = some .idle := by
    intro id
    refine (phases id).imp_right fun answered => ⟨answered.1, ?_⟩
    obtain ⟨_, req, awaiting, done⟩ := answered
    refine ⟨req, awaiting, done.trans ?_⟩
    obtain ⟨isReserve, _⟩ := ok.waiting id req awaiting
    unfold CmdRequest.donePhase
    rcases isReserve with isType | isType <;> simp [isType]
  refine ⟨{ s with proc, conns, log := s.log ++ proc.outbox }, ?_, ticked.containers, connsOk,
    ?_, ?_, ?_, ?_, ?_⟩
  · unfold CmdSystem.react CmdSystem.round
    dsimp only
    rw [runs]
    dsimp only
    rw [receives]
    rfl
  · intro id isConn
    apply ok.named id
    rcases phase id with ⟨_, kept⟩ | ⟨_, req, awaiting, _⟩
    · rw [← kept]
      exact isConn
    · simp [awaiting]
  · intro id
    dsimp only
    rw [ticked.clients, ok.present]
    rcases phase id with ⟨_, kept⟩ | ⟨_, req, awaiting, isIdle⟩
    · rw [kept]
    · simp [awaiting, isIdle]
  · intro id member
    dsimp only at member
    rw [ticked.closed] at member
    have stopped := ok.closed id member
    rcases phase id with ⟨_, kept⟩ | ⟨_, req, awaiting, _⟩
    · exact kept.trans stopped
    · rw [awaiting] at stopped
      cases stopped
  · intro request awaits
    obtain ⟨before, unanswered⟩ := (ticked.settles.rest request).mp awaits
    obtain ⟨req, awaiting, sameId⟩ := ok.awaited request before
    rcases phase request.clientId with ⟨_, kept⟩ | ⟨answered, _⟩
    · exact ⟨req, kept.trans awaiting, sameId⟩
    · exact absurd answered unanswered
  · intro id req awaiting
    rcases phase id with ⟨unanswered, kept⟩ | ⟨_, _, _, isIdle⟩
    · obtain ⟨isReserve, watchedTubes, awaits⟩ := ok.waiting id req (kept.symm.trans awaiting)
      exact ⟨isReserve, watchedTubes, (ticked.settles.rest _).mpr ⟨awaits, unanswered⟩⟩
    · dsimp only at awaiting
      rw [isIdle] at awaiting
      cases awaiting

/-- No event makes the processor panic or block, and the invariant is kept. -/
theorem react (ok : SystemOk s) {event : CmdEvent} (enabled : s.Enabled event) :
    ∃ after, s.react event = some after ∧ SystemOk after := by
  cases event with
  | connect id => exact ok.connect enabled
  | dispatch reqID cmdData clientID env => exact ok.dispatch enabled
  | tick now walk => exact ok.tick enabled

theorem reached {maxReserveTimeoutSecs : Int64} (reached : s.Reached maxReserveTimeoutSecs) :
    SystemOk s := by
  induction reached with
  | start => exact start maxReserveTimeoutSecs
  | next _ enabled reacts induction =>
      obtain ⟨after, isAfter, ok⟩ := induction.react enabled
      rw [reacts] at isAfter
      cases isAfter
      exact ok

end SystemOk

/-! ## One final reply -/

/-- Every request gets one final reply, its own, and a reservation of a tick is for a
client that is still there. -/
structure RepliesOnce (s : CmdSystem) : Prop where
  /-- The ids of the requests are distinct. -/
  ids : (s.requests.map (·.id)).Nodup
  /-- No two final responses are to one request. -/
  once : ((s.log.filter fun sent => !sent.resp.hasMore).map (·.resp.requestID)).Nodup
  /-- A response goes to the client of its request. -/
  addressed : ∀ sent ∈ s.log, ∃ req ∈ s.requests, sent.AddressedTo req.clientID req.id
  /-- A request without a final response is a reserve that the state machine awaits. -/
  unanswered : ∀ req ∈ s.requests,
    (∀ sent ∈ s.log, sent.resp.hasMore = false → sent.resp.requestID ≠ req.id) →
      req.IsReserve ∧ ∃ cli ∈ s.proc.jsm.clients.entries, cli.cliID = req.clientID ∧
        (s.proc.jsm.clientAt cli).isWaitingForResv = true ∧
        (s.proc.jsm.clientAt cli).reqID = req.id
  /-- The clients of the reservations of a tick are there. -/
  present : ∀ now walk resv after, now.toInt < 2 ^ 62 →
    Coolbeans.tick now walk s.proc.jsm = .ok resv after →
      ∀ r ∈ resv, s.proc.clients.find r.clientId ≠ none
  /-- No event makes the processor panic or block. -/
  goesOn : ∀ event, s.Enabled event → ∃ after, s.react event = some after

theorem CmdSystem.repliesOnce_of_reached {maxReserveTimeoutSecs : Int64} {s : CmdSystem}
    (reached : s.Reached maxReserveTimeoutSecs) : RepliesOnce s := by
  have ok := SystemOk.reached reached
  refine ⟨ok.conns.ids, ok.conns.once, ok.conns.addressed, ?_, ?_, ?_⟩
  · intro req member unanswered
    rcases ok.conns.answered req member with awaiting | ⟨sent, inside, isFinal, isReq⟩
    · obtain ⟨isReserve, _, cli, registered, isClient, isWaiting, isReq, _⟩ :=
        ok.waiting _ _ awaiting
      exact ⟨isReserve, cli, registered, isClient, isWaiting, isReq⟩
    · exact absurd isReq (unanswered sent inside isFinal)
  · intro now walk resv after clock returns r member
    have runs : (Op.tick now walk).run s.proc.jsm = .ok (.reservations resv) after := by
      simp only [Op.run, Prog.map_apply, returns]
      rfl
    have effect := admissible_wellCalled.effect ok.containers (wellCalled_tick clock)
      (Op.Steps.of_ok runs)
    cases effect.requestStep ok.containers admissible_wellCalled.readyExact with
    | kept unreserved => exact absurd rfl ((unreserved trivial _ rfl).2 resv)
    | ticked _ settles =>
        obtain ⟨request, awaits, sameClient, _⟩ := settles.awaited r member
        obtain ⟨req, awaiting, _⟩ := ok.awaited request awaits
        rw [Ne, sameClient, ok.present, awaiting]
        simp
  · intro event enabled
    obtain ⟨after, reacts, _⟩ := ok.react enabled
    exact ⟨after, reacts⟩

/-! ### A run -/

/-- The state after events that can happen, one after the other. -/
def CmdSystem.play : List CmdEvent → CmdSystem → Option CmdSystem
  | [], s => some s
  | event :: events, s =>
      if s.Enabled event then (s.react event).bind (play events) else none

theorem CmdSystem.Reached.play {maxReserveTimeoutSecs : Int64} {events : List CmdEvent}
    {s after : CmdSystem} (reached : s.Reached maxReserveTimeoutSecs)
    (played : s.play events = some after) : after.Reached maxReserveTimeoutSecs := by
  induction events generalizing s with
  | nil =>
      cases played
      exact reached
  | cons event events induction =>
      unfold CmdSystem.play at played
      split at played
      next enabled =>
        obtain ⟨middle, reacts, rest⟩ := Option.bind_eq_some_iff.mp played
        exact induction (reached.next enabled reacts) rest
      next => cases played

/-- One client reserves, another puts a job and quits, and a tick hands the job over. -/
def reservePutQuit : List CmdEvent :=
  let env : RequestEnv := { now := 10, later := 10, order := .inOrder, yaml := none }
  [.connect [1], .connect [2],
    .dispatch [11] { cmdType := .reserve } [1] env,
    .dispatch [12] { cmdType := .put, args := text "0 0 60 1", data := some [120] } [2] env,
    .dispatch [13] { cmdType := .quit } [2] env,
    .tick 11 .inOrder]

theorem CmdSystem.repliesOnce_reservePutQuit :
    ∃ s, (start 60).play reservePutQuit = some s ∧
      s.log.map (fun sent => (sent.channel, sent.resp.requestID, sent.resp.hasMore)) =
        [([2], [12], false), ([2], [13], false), ([1], [11], true), ([1], [11], false)] ∧
      RepliesOnce s := by
  have played : ((start 60).play reservePutQuit).map (fun s => s.log.map fun sent =>
      (sent.channel, sent.resp.requestID, sent.resp.hasMore)) =
        some [([2], [12], false), ([2], [13], false), ([1], [11], true), ([1], [11], false)] := by
    decide +kernel
  obtain ⟨s, isState, isLog⟩ := Option.map_eq_some_iff.mp played
  exact ⟨s, isState, isLog, repliesOnce_of_reached (Reached.play .start isState)⟩

end Coolbeans
