import Coolbeans.NodeAnswers

/-!
# Answers through a proxy

An answer travels from the node to its client through the stream and the queue of the
proxy.  As long as the node is asked for the clients that wait only while nothing is on the
way, every answer that the proxy returns is the one to the request that its client waits
for: a client that waits is awaited by the node or has one answer on the way, or that
answer is lost.

The node's answer can overtake a reservation: then the client is told of an error while its
reservation is on the way, asks again, and gets the reservation for its first request.
-/

namespace Coolbeans

open FiniteMap StatefulProgram

/-! ## The invariant -/

/-- The answers that `Tick` has taken from the queue. -/
def TickPhase.result : TickPhase → List Reservation
  | .idle => []
  | .drained result => result
  | .asking result _ => result

namespace ProxySystem

/-- The answers that are on the way, with their clients and requests. -/
def inFlight (s : ProxySystem) : List (ClientID × ReqID) :=
  s.rq.map (fun r => (r.clientId, r.requestId)) ++
    s.stream.map fun v1r => (v1r.clientId, v1r.requestId)

/-- The node is called properly, and it is asked for the clients that wait only while
nothing is on the way. -/
def Orderly (s : ProxySystem) : ProxyStep → Prop
  | .appendReservation _ _ watchedTubes _ _ nodeSecs =>
      watchedTubes.Nodup ∧ nodeSecs.toInt < 2 ^ 62
  | .nodeOp op => op.Proper
  | .nodeTick nodeSecs _ _ => nodeSecs.toInt < 2 ^ 62
  | .checkClients _ => s.stream = [] ∧ s.rq = []
  | _ => True

instance (s : ProxySystem) (taken : ProxyStep) : Decidable (s.Orderly taken) := by
  unfold Orderly
  split <;> infer_instance

/-- A client whose request the node awaits waits at the proxy for that request, and has no
answer on the way; an answer on the way is to the request that its client waits for, and
there is one at most for each client. -/
structure ProxyOk (proxyID : ProxyID) (s : ProxySystem) : Prop where
  containers : ContainersOk .anyRun s.node
  awaited : ∀ request, s.node.Awaits request → ∃ uri : ClientURI,
    request.clientId = uri.toClientID ∧ (uri.proxyID = proxyID →
      s.outstanding uri.clientID = some request.reqID ∧ uri.clientID ∈ s.waiting ∧
        uri.clientID ∉ s.inFlight.map Prod.fst)
  onTheWay : ∀ pair ∈ s.inFlight, s.outstanding pair.1 = some pair.2 ∧ pair.1 ∈ s.waiting
  distinct : (s.inFlight.map Prod.fst).Nodup
  waiting : ∀ clientID ∈ s.waiting, s.outstanding clientID ≠ none
  once : s.waiting.Nodup
  result : ∀ r ∈ s.phase.result,
    r.clientId ∉ s.waiting ∧ s.outstanding r.clientId = some r.requestId

namespace ProxyOk

variable {proxyID : ProxyID} {s : ProxySystem}

theorem start (proxyID : ProxyID) : ProxyOk proxyID start where
  containers := containersOk_newJSM
  awaited := by
    intro request awaits
    obtain ⟨cli, member, _⟩ := awaits
    cases member
  onTheWay := by simp [inFlight, ProxySystem.start]
  distinct := by simp [inFlight, ProxySystem.start]
  waiting := by simp [ProxySystem.start]
  once := by simp [ProxySystem.start]
  result := by simp [ProxySystem.start, TickPhase.result]

/-- A step of the node after which it awaits nothing new. -/
theorem of_settles (ok : ProxyOk proxyID s) {node : JSM} (containers : ContainersOk .anyRun node)
    {resvs : List Reservation} (settles : Settles resvs s.node node) :
    ProxyOk proxyID { s with node } :=
  { ok with
    containers
    awaited := fun request awaits => ok.awaited request ((settles.rest request).mp awaits).1 }

theorem asked (ok : ProxyOk proxyID s) {node : JSM} (containers : ContainersOk .anyRun node)
    {uri : ClientURI} {reqID : ReqID} {watchedTubes : List TubeName}
    (isIdle : s.phase = .idle) (none : s.outstanding uri.clientID = none)
    (adds : ∀ request, node.Awaits request ↔
      s.node.Awaits request ∨ request = ⟨uri.toClientID, reqID, watchedTubes⟩) :
    ProxyOk proxyID { s with
      node
      waiting := s.waiting ++ [uri.clientID]
      outstanding := Function.update s.outstanding uri.clientID (some reqID) } := by
  have others : ∀ clientID request, s.outstanding clientID = some request →
      Function.update s.outstanding uri.clientID (some reqID) clientID = some request := by
    intro clientID request isOutstanding
    have different : clientID ≠ uri.clientID := by
      rintro rfl
      rw [none] at isOutstanding
      cases isOutstanding
    rw [Function.update_of_ne different]
    exact isOutstanding
  refine ⟨containers, ?_, ?_, ok.distinct, ?_, ?_, ?_⟩
  · intro request awaits
    rcases (adds request).mp awaits with before | rfl
    · obtain ⟨other, isOther, known⟩ := ok.awaited request before
      refine ⟨other, isOther, fun otherProxy => ?_⟩
      obtain ⟨isOutstanding, isWaiting, unanswered⟩ := known otherProxy
      exact ⟨others _ _ isOutstanding, List.mem_append_left _ isWaiting, unanswered⟩
    · refine ⟨uri, rfl, fun _ => ⟨Function.update_self _ _ _, by simp, fun listed => ?_⟩⟩
      obtain ⟨pair, member, sameClient⟩ := List.mem_map.mp listed
      have isOutstanding := (ok.onTheWay pair member).1
      rw [sameClient, none] at isOutstanding
      cases isOutstanding
  · intro pair member
    obtain ⟨isOutstanding, isWaiting⟩ := ok.onTheWay pair member
    exact ⟨others _ _ isOutstanding, List.mem_append_left _ isWaiting⟩
  · intro clientID member
    rcases List.mem_append.mp member with old | new
    · obtain ⟨request, isOutstanding⟩ := Option.ne_none_iff_exists'.mp (ok.waiting clientID old)
      simp [others _ _ isOutstanding]
    · rw [List.mem_singleton.mp new]
      simp
  · refine List.nodup_append.mpr ⟨ok.once, List.nodup_singleton _, fun old oldIn new newIn => ?_⟩
    rw [List.mem_singleton.mp newIn]
    rintro rfl
    exact ok.waiting _ oldIn none
  · dsimp only
    rw [isIdle]
    simp [TickPhase.result]

theorem appendReservation (ok : ProxyOk proxyID s) {req : ReserveRequest} {nodeSecs : Int64}
    {after : ProxySystem} (tubes : req.watchedTubes.Nodup)
    (clock : nodeSecs.toInt < 2 ^ 62) (isIdle : s.phase = .idle)
    (none : s.outstanding req.clientId = none)
    (returned : s.appendReservation req nodeSecs = some after) : ProxyOk proxyID after := by
  have ends := ends_applyReserve ok.containers tubes clock
  unfold ProxySystem.appendReservation at returned
  split at returned
  next => cases returned
  next error node outcome =>
    rw [outcome] at ends
    cases returned
    exact ok.of_settles ends.1 ends.2
  next resv node outcome =>
    rw [outcome] at ends
    obtain ⟨containers, sameClient, uri, uriProxy, uriClient, answered⟩ := ends
    rcases answered with ⟨queued, adds⟩ | ⟨unqueued, settles⟩
    · rw [if_pos queued] at returned
      rw [sameClient] at returned
      split at returned
      next already => exact absurd none (ok.waiting _ already)
      next =>
        cases returned
        rw [← uriClient] at none ⊢
        exact ok.asked containers isIdle none adds
    · rw [if_neg unqueued] at returned
      cases returned
      exact ok.of_settles containers settles

theorem nodeOp (ok : ProxyOk proxyID s) {op : Op} (proper : op.Proper)
    (forOthers : ForOthers proxyID op) {node : JSM} (left : (op.run s.node).state? = some node) :
    ProxyOk proxyID { s with node } := by
  obtain ⟨answer, steps⟩ := Op.steps_of_state left
  have effect := admissible_proper.effect ok.containers proper steps
  have containers := effect.containersOk ok.containers
  cases effect.requestStep ok.containers admissible_proper.readyExact with
  | kept _ settles => exact ok.of_settles containers settles
  | matched _ _ settles => exact ok.of_settles containers settles
  | ticked => exact forOthers.elim
  | @queued clientId reqID watchedTubes _ _ _ _ _ _ _ adds =>
      refine { ok with containers, awaited := fun request awaits => ?_ }
      rcases (adds request).mp awaits with before | rfl
      · exact ok.awaited request before
      · unfold ForOthers at forOthers
        dsimp only at forOthers
        split at forOthers
        next uri _ =>
          exact ⟨uri, forOthers.1.symm, fun isProxy => absurd isProxy forOthers.2⟩
        next => exact forOthers.elim

theorem nodeTick (ok : ProxyOk proxyID s) {node : JSM} (containers : ContainersOk .anyRun node)
    {resvs : List Reservation} {sent : List V1Reservation} (settles : Settles resvs s.node node)
    (sends : TickSends proxyID resvs sent) (kept : Nat) :
    ProxyOk proxyID { s with node, stream := s.stream ++ sent.take kept } := by
  -- the client of an answer waits for it, and has no other on the way
  have answers : ∀ v1r ∈ sent.take kept, v1r.clientId ∈ s.waiting ∧
      s.outstanding v1r.clientId = some v1r.requestId ∧
      v1r.clientId ∉ s.inFlight.map Prod.fst ∧
      ∀ uri : ClientURI, uri.proxyID = proxyID → uri.clientID = v1r.clientId →
        uri.toClientID ∈ resvs.map (·.clientId) := by
    intro v1r member
    obtain ⟨r, inside, ⟨uri, isClient, uriProxy, uriClient, sameReq, _⟩, isProxy⟩ :=
      sends.answers v1r (List.mem_of_mem_take member)
    obtain ⟨request, awaits, sameClient, requestID⟩ := settles.awaited r inside
    obtain ⟨other, isOther, known⟩ := ok.awaited request awaits
    have sameURI : other = uri :=
      ClientURI.toClientID_injective (by rw [← isOther, ← sameClient, isClient])
    subst other
    obtain ⟨isOutstanding, isWaiting, unanswered⟩ := known (uriProxy.symm.trans isProxy)
    rw [uriClient]
    refine ⟨isWaiting, by rw [isOutstanding, sameReq, requestID], unanswered, ?_⟩
    intro again againProxy againClient
    have isAgain : again = uri := ClientURI.ext
      (by rw [againProxy, ← uriProxy, isProxy]) (by rw [againClient, ← uriClient])
    rw [isAgain, ← isClient]
    exact List.mem_map_of_mem inside
  have flight : inFlight { s with node, stream := s.stream ++ sent.take kept } =
      s.inFlight ++ (sent.take kept).map fun v1r => (v1r.clientId, v1r.requestId) := by
    simp [inFlight]
  refine ⟨containers, ?_, ?_, ?_, ok.waiting, ok.once, ok.result⟩
  · intro request awaits
    obtain ⟨before, unanswered⟩ := (settles.rest request).mp awaits
    obtain ⟨uri, isClient, known⟩ := ok.awaited request before
    refine ⟨uri, isClient, fun isProxy => ?_⟩
    obtain ⟨isOutstanding, isWaiting, notOnTheWay⟩ := known isProxy
    refine ⟨isOutstanding, isWaiting, ?_⟩
    rw [flight, List.map_append, List.mem_append, not_or]
    refine ⟨notOnTheWay, fun listed => ?_⟩
    rw [List.map_map] at listed
    obtain ⟨v1r, member, sameClient⟩ := List.mem_map.mp listed
    apply unanswered
    rw [isClient]
    exact (answers v1r member).2.2.2 uri isProxy sameClient.symm
  · intro pair member
    rw [flight] at member
    rcases List.mem_append.mp member with old | new
    · exact ok.onTheWay pair old
    · obtain ⟨v1r, inside, rfl⟩ := List.mem_map.mp new
      exact ⟨(answers v1r inside).2.1, (answers v1r inside).1⟩
  · rw [flight, List.map_append, List.map_map]
    refine List.nodup_append.mpr ⟨ok.distinct, ?_, fun old oldIn new newIn => ?_⟩
    · exact sends.distinct.sublist ((List.take_sublist _ _).map _)
    · rintro rfl
      obtain ⟨v1r, inside, same⟩ := List.mem_map.mp newIn
      rw [← same] at oldIn
      exact (answers v1r inside).2.2.1 oldIn

theorem lose (ok : ProxyOk proxyID s) (recoverClients : Bool) :
    ProxyOk proxyID { s with stream := [], recoverClients } := by
  have fewer : (inFlight { s with stream := [], recoverClients }).Sublist s.inFlight := by
    simp [inFlight]
  refine ⟨ok.containers, ?_, fun pair member => ok.onTheWay pair (fewer.subset member),
    ok.distinct.sublist (fewer.map _), ok.waiting, ok.once, ok.result⟩
  intro request awaits
  obtain ⟨uri, isClient, known⟩ := ok.awaited request awaits
  refine ⟨uri, isClient, fun isProxy => ?_⟩
  obtain ⟨isOutstanding, isWaiting, notOnTheWay⟩ := known isProxy
  exact ⟨isOutstanding, isWaiting, fun listed => notOnTheWay ((fewer.map _).subset listed)⟩

theorem receive (ok : ProxyOk proxyID s) {v1r : V1Reservation} {stream : List V1Reservation}
    (head : s.stream = v1r :: stream) :
    ProxyOk proxyID { s with stream, rq := s.rq ++ [fromV1 v1r] } := by
  have flight : inFlight { s with stream, rq := s.rq ++ [fromV1 v1r] } = s.inFlight := by
    simp [inFlight, head, fromV1]
  refine ⟨ok.containers, ?_, ?_, ?_, ok.waiting, ok.once, ok.result⟩
  · rw [flight]
    exact ok.awaited
  · rw [flight]
    exact ok.onTheWay
  · rw [flight]
    exact ok.distinct

/-! ### `Tick` -/

theorem foldl_takeEntry (entries : List Reservation) {waiting : List ClientID}
    (once : waiting.Nodup) (taken : List Reservation) :
    ∃ left more, entries.foldl takeEntry (waiting, taken) = (left, taken ++ more) ∧
      more ⊆ entries ∧ left.Nodup ∧
      ∀ clientID, clientID ∈ left ↔ clientID ∈ waiting ∧ clientID ∉ more.map (·.clientId) := by
  induction entries generalizing waiting taken with
  | nil => exact ⟨waiting, [], by simp, by simp, once, by simp⟩
  | cons r entries induction =>
      rw [List.foldl_cons]
      by_cases isWaiting : r.clientId ∈ waiting
      · rw [takeEntry, if_pos isWaiting]
        obtain ⟨left, more, folds, inside, nodup, members⟩ :=
          induction (once.erase r.clientId) (taken ++ [r])
        refine ⟨left, r :: more, ?_, ?_, nodup, fun clientID => ?_⟩
        · rw [folds, List.append_assoc]
          rfl
        · exact List.cons_subset_cons r inside
        · rw [members, once.mem_erase_iff]
          simp [and_assoc, and_comm, and_left_comm]
      · rw [takeEntry, if_neg isWaiting]
        obtain ⟨left, more, folds, inside, rest⟩ := induction once taken
        exact ⟨left, more, folds, fun other member => List.mem_cons_of_mem _ (inside member),
          rest⟩

theorem drain (ok : ProxyOk proxyID s) {waiting : List ClientID} {result : List Reservation}
    (drained : s.rq.foldl takeEntry (s.waiting, []) = (waiting, result)) :
    ProxyOk proxyID { s with rq := [], waiting, phase := .drained result } := by
  obtain ⟨left, more, folds, inside, nodup, members⟩ := foldl_takeEntry s.rq ok.once []
  rw [drained] at folds
  cases folds
  rw [List.nil_append]
  have fromQueue : ∀ r ∈ more, (r.clientId, r.requestId) ∈ s.inFlight := by
    intro r member
    apply List.mem_append_left
    exact List.mem_map_of_mem (inside member)
  have flight : s.inFlight = s.rq.map (fun r => (r.clientId, r.requestId)) ++
      inFlight { s with rq := [], waiting, phase := .drained more } := by
    simp [inFlight]
  have fewer : (inFlight { s with rq := [], waiting, phase := .drained more }).Sublist
      s.inFlight := by
    rw [flight]
    exact List.sublist_append_right _ _
  refine ⟨ok.containers, ?_, ?_, ok.distinct.sublist (fewer.map _), ?_, nodup, ?_⟩
  · intro request awaits
    obtain ⟨uri, isClient, known⟩ := ok.awaited request awaits
    refine ⟨uri, isClient, fun isProxy => ?_⟩
    obtain ⟨isOutstanding, isWaiting, notOnTheWay⟩ := known isProxy
    refine ⟨isOutstanding, (members _).mpr ⟨isWaiting, fun listed => ?_⟩,
      fun listed => notOnTheWay ((fewer.map _).subset listed)⟩
    obtain ⟨r, member, sameClient⟩ := List.mem_map.mp listed
    exact notOnTheWay (List.mem_map.mpr ⟨_, fromQueue r member, sameClient⟩)
  · intro pair member
    obtain ⟨isOutstanding, isWaiting⟩ := ok.onTheWay pair (fewer.subset member)
    refine ⟨isOutstanding, (members _).mpr ⟨isWaiting, fun listed => ?_⟩⟩
    -- an answer in the stream is not to a client with an answer in the queue
    obtain ⟨r, inMore, sameClient⟩ := List.mem_map.mp listed
    have distinct := ok.distinct
    rw [flight, List.map_append, List.nodup_append] at distinct
    refine distinct.2.2 r.clientId ?_ pair.1 (List.mem_map_of_mem member) sameClient
    rw [List.map_map]
    exact List.mem_map.mpr ⟨r, inside inMore, rfl⟩
  · exact fun clientID member => ok.waiting clientID ((members clientID).mp member).1
  · intro r member
    refine ⟨fun isWaiting => ?_, (ok.onTheWay _ (fromQueue r member)).1⟩
    exact ((members _).mp isWaiting).2 (List.mem_map_of_mem member)

theorem returns (ok : ProxyOk proxyID s) {result : List Reservation}
    (gone : ∀ r ∈ result, r.clientId ∉ s.waiting) : ProxyOk proxyID (s.returns result).1 := by
  have kept : ∀ clientID ∈ s.waiting,
      (s.returns result).1.outstanding clientID = s.outstanding clientID := by
    intro clientID isWaiting
    apply if_neg
    intro listed
    obtain ⟨r, member, rfl⟩ := List.mem_map.mp listed
    exact gone r member isWaiting
  refine ⟨ok.containers, ?_, ?_, ok.distinct, ?_, ok.once,
    by simp [ProxySystem.returns, TickPhase.result]⟩
  · intro request awaits
    obtain ⟨uri, isClient, known⟩ := ok.awaited request awaits
    refine ⟨uri, isClient, fun isProxy => ?_⟩
    obtain ⟨isOutstanding, isWaiting, notOnTheWay⟩ := known isProxy
    exact ⟨(kept _ isWaiting).trans isOutstanding, isWaiting, notOnTheWay⟩
  · intro pair member
    obtain ⟨isOutstanding, isWaiting⟩ := ok.onTheWay pair member
    exact ⟨(kept _ isWaiting).trans isOutstanding, isWaiting⟩
  · intro clientID member
    rw [kept clientID member]
    exact ok.waiting clientID member

/-! ### Recovery -/

theorem recover (ok : ProxyOk proxyID s) {resp : CheckClientStateResponse}
    (nothing : s.stream = [] ∧ s.rq = [])
    (lost : ∀ uri : ClientURI, uri.proxyID = proxyID →
      uri.clientID ∈ resp.notWaitingClientIds ++ resp.missingClientIds →
        s.node.standing uri.toClientID ≠ .waiting) :
    ProxyOk proxyID (s.recover s.phase.result resp).1 := by
  have empty : s.inFlight = [] := by
    simp [inFlight, nothing]
  have fewer : ∀ clientID, clientID ∈ s.waiting.filter
      (· ∉ resp.notWaitingClientIds ++ resp.missingClientIds) ↔ clientID ∈ s.waiting ∧
        clientID ∉ resp.notWaitingClientIds ++ resp.missingClientIds := by
    intro clientID
    simp [List.mem_filter]
  have left : ProxyOk proxyID { s with
      waiting := s.waiting.filter (· ∉ resp.notWaitingClientIds ++ resp.missingClientIds) } := by
    refine ⟨ok.containers, ?_, ?_, ok.distinct, ?_, ok.once.filter _, ?_⟩
    · intro request awaits
      obtain ⟨uri, isClient, known⟩ := ok.awaited request awaits
      refine ⟨uri, isClient, fun isProxy => ?_⟩
      obtain ⟨isOutstanding, isWaiting, notOnTheWay⟩ := known isProxy
      refine ⟨isOutstanding, (fewer _).mpr ⟨isWaiting, fun isLost => ?_⟩, notOnTheWay⟩
      have stands := standing_of_awaits awaits
      rw [isClient] at stands
      exact lost uri isProxy isLost stands
    · intro pair member
      have impossible : pair ∈ s.inFlight := member
      rw [empty] at impossible
      cases impossible
    · exact fun clientID member => ok.waiting clientID ((fewer clientID).mp member).1
    · intro r member
      obtain ⟨notWaiting, isOutstanding⟩ := ok.result r member
      exact ⟨fun isWaiting => notWaiting ((fewer _).mp isWaiting).1, isOutstanding⟩
  apply left.returns
  intro r member
  rcases List.mem_append.mp member with inResult | isLost
  · exact (left.result r inResult).1
  · obtain ⟨clientID, inside, rfl⟩ := List.mem_map.mp isLost
    exact fun isWaiting => ((fewer clientID).mp isWaiting).2 inside

/-! ### All steps -/

theorem returns_result (ok : ProxyOk proxyID s) {result : List Reservation}
    (isResult : s.phase.result = result) : ProxyOk proxyID (s.returns result).1 := by
  apply ok.returns
  intro r member
  rw [← isResult] at member
  exact (ok.result r member).1

theorem step (ok : ProxyOk proxyID s) {taken : ProxyStep} {after : ProxySystem}
    {returned : List Reservation} (orderly : s.Orderly taken)
    (steps : s.step proxyID taken = some (after, returned)) : ProxyOk proxyID after := by
  cases taken with
  | appendReservation clientID reqID watchedTubes nowSecs deadlineAt nodeSecs =>
      dsimp only [ProxySystem.step] at steps
      split at steps
      next guard =>
        obtain ⟨next, appended, same⟩ := Option.map_eq_some_iff.mp steps
        cases same
        exact ok.appendReservation orderly.1 orderly.2 guard.1 guard.2 appended
      next => cases steps
  | nodeOp op =>
      dsimp only [ProxySystem.step] at steps
      split at steps
      next forOthers =>
        obtain ⟨node, left, same⟩ := Option.map_eq_some_iff.mp steps
        cases same
        exact ok.nodeOp orderly forOthers left
      next => cases steps
  | nodeTick nodeSecs walk kept =>
      have named : ∀ request, s.node.Awaits request →
          ∃ uri : ClientURI, request.clientId = uri.toClientID := by
        intro request awaits
        obtain ⟨uri, isClient, _⟩ := ok.awaited request awaits
        exact ⟨uri, isClient⟩
      have ends : (fsmApply nodeSecs (.tick walk) s.node).Ends _ _ _ :=
        ends_applyTick ok.containers orderly proxyID named
      dsimp only [ProxySystem.step] at steps
      split at steps
      next => cases steps
      next error node outcome =>
        cases steps
        rw [outcome] at ends
        obtain ⟨containers, resvs, settles⟩ := ends
        exact ok.of_settles containers settles
      next groups node outcome =>
        cases steps
        rw [outcome] at ends
        obtain ⟨containers, resvs, settles, sends⟩ := ends
        exact ok.nodeTick containers settles sends kept
  | receive =>
      dsimp only [ProxySystem.step] at steps
      split at steps
      next => cases steps
      next v1r stream head =>
        cases steps
        exact ok.receive head
  | breakStream =>
      cases steps
      exact ok.lose true
  | drain =>
      dsimp only [ProxySystem.step] at steps
      split at steps
      next =>
        cases steps
        exact ok.drain rfl
      next => cases steps
  | testFlag order =>
      dsimp only [ProxySystem.step] at steps
      split at steps
      next result isPhase =>
        have isResult : s.phase.result = result := by
          rw [isPhase]
          rfl
        split at steps
        next =>
          cases steps
          exact ok.returns_result isResult
        next =>
          have reset : ProxyOk proxyID { s with recoverClients := false } := { ok with }
          split at steps
          next =>
            cases steps
            exact reset.returns_result isResult
          next =>
            cases steps
            exact { ok with result := isResult ▸ ok.result }
      next => cases steps
  | checkClients nodeSecs =>
      dsimp only [ProxySystem.step] at steps
      split at steps
      next result asked isPhase =>
        have isResult : s.phase.result = result := by
          rw [isPhase]
          rfl
        have ends := ends_applyCheckState s.node { proxyId := proxyID, clientIds := asked } nodeSecs
        split at steps
        next => cases steps
        next =>
          cases steps
          exact ok.returns_result isResult
        next resp _ outcome =>
          cases steps
          rw [outcome] at ends
          rw [← isResult]
          exact ok.recover orderly ends
      next => cases steps
  | checkFails =>
      dsimp only [ProxySystem.step] at steps
      split at steps
      next result _ isPhase =>
        cases steps
        apply ok.returns_result
        rw [isPhase]
        rfl
      next => cases steps

end ProxyOk

theorem Reached.proxyOk {proxyID : ProxyID} {s : ProxySystem}
    (reached : Reached proxyID Orderly s) : ProxyOk proxyID s := by
  induction reached with
  | start => exact .start proxyID
  | next _ orderly steps induction => exact induction.step orderly steps

/-! ## Own answers -/

/-- `Tick` returns the answers that it took from the queue, and errors. -/
theorem returned_of_step {proxyID : ProxyID} {s after : ProxySystem} {taken : ProxyStep}
    {returned : List Reservation} (steps : s.step proxyID taken = some (after, returned)) :
    ∀ r ∈ returned, r ∈ s.phase.result ∨ r.status = .error := by
  cases taken with
  | appendReservation clientID reqID watchedTubes nowSecs deadlineAt nodeSecs =>
      dsimp only [ProxySystem.step] at steps
      split at steps
      next =>
        obtain ⟨_, _, same⟩ := Option.map_eq_some_iff.mp steps
        cases same
        simp
      next => cases steps
  | nodeOp op =>
      dsimp only [ProxySystem.step] at steps
      split at steps
      next =>
        obtain ⟨_, _, same⟩ := Option.map_eq_some_iff.mp steps
        cases same
        simp
      next => cases steps
  | nodeTick nodeSecs walk kept =>
      dsimp only [ProxySystem.step] at steps
      split at steps
      all_goals
        cases steps
      all_goals simp
  | receive =>
      dsimp only [ProxySystem.step] at steps
      split at steps
      all_goals
        cases steps
      all_goals simp
  | breakStream =>
      cases steps
      simp
  | drain =>
      dsimp only [ProxySystem.step] at steps
      split at steps
      all_goals
        cases steps
      all_goals simp
  | testFlag order =>
      dsimp only [ProxySystem.step] at steps
      split at steps
      next result isPhase =>
        rw [isPhase]
        split at steps
        next =>
          cases steps
          exact fun r member => Or.inl member
        next =>
          split at steps
          next =>
            cases steps
            exact fun r member => Or.inl member
          next =>
            cases steps
            simp
      next => cases steps
  | checkClients nodeSecs =>
      dsimp only [ProxySystem.step] at steps
      split at steps
      next result asked isPhase =>
        rw [isPhase]
        split at steps
        next => cases steps
        next =>
          cases steps
          exact fun r member => Or.inl member
        next resp _ _ =>
          cases steps
          intro r member
          rcases List.mem_append.mp member with inResult | isLost
          · exact Or.inl inResult
          · obtain ⟨clientID, _, rfl⟩ := List.mem_map.mp isLost
            exact Or.inr rfl
      next => cases steps
  | checkFails =>
      dsimp only [ProxySystem.step] at steps
      split at steps
      next result _ isPhase =>
        rw [isPhase]
        cases steps
        exact fun r member => Or.inl member
      next => cases steps

/-- In an orderly run, what `Tick` returns with a result answers the request that its
client waits for. -/
theorem answersOwn_of_orderly {proxyID : ProxyID} {s after : ProxySystem} {taken : ProxyStep}
    {returned : List Reservation} (reached : Reached proxyID Orderly s)
    (steps : s.step proxyID taken = some (after, returned)) : s.AnswersOwn returned := by
  intro r member hasResult
  rcases returned_of_step steps r member with inResult | isError
  · exact (reached.proxyOk.result r inResult).2
  · rcases hasResult with status | status | status <;> simp [isError] at status

/-! ### Runs -/

/-- Take steps that meet a condition, one after the other. -/
def play (proxyID : ProxyID) (allowed : ProxySystem → ProxyStep → Prop)
    [∀ s taken, Decidable (allowed s taken)] :
    List ProxyStep → ProxySystem → Option ProxySystem
  | [], s => some s
  | taken :: rest, s =>
      if allowed s taken then
        (s.step proxyID taken).bind fun next => play proxyID allowed rest next.1
      else none

theorem Reached.play {proxyID : ProxyID} {allowed : ProxySystem → ProxyStep → Prop}
    [∀ s taken, Decidable (allowed s taken)] {taken : List ProxyStep} {s after : ProxySystem}
    (reached : Reached proxyID allowed s) (played : s.play proxyID allowed taken = some after) :
    Reached proxyID allowed after := by
  induction taken generalizing s with
  | nil =>
      cases played
      exact reached
  | cons first rest induction =>
      unfold ProxySystem.play at played
      split at played
      next isAllowed =>
        obtain ⟨next, steps, played⟩ := Option.bind_eq_some_iff.mp played
        exact induction (reached.next isAllowed steps) played
      next => cases played

/-- A job is put, and a client of the proxy is served after it has waited. -/
def servedAfterWait : List ProxyStep :=
  [.appendReservation [7] [1] [[9]] 10 60 10, .nodeOp (.put 11 5 0 60 0 none [9]),
    .nodeTick 12 .inOrder 1, .receive, .drain]

theorem answersOwn_servedAfterWait :
    ∃ s after returned, Reached [8] Orderly s ∧
      s.step [8] (.testFlag .inOrder) = some (after, returned) ∧
      returned.map (·.status) = [.matched] ∧ s.AnswersOwn returned := by
  have played : ((start.play [8] Orderly servedAfterWait).bind fun s =>
      (s.step [8] (.testFlag .inOrder)).map fun next => next.2.map (·.status)) =
        some [.matched] := by
    decide +kernel
  obtain ⟨s, isState, last⟩ := Option.bind_eq_some_iff.mp played
  obtain ⟨⟨after, returned⟩, steps, statuses⟩ := Option.map_eq_some_iff.mp last
  have reached := Reached.start.play isState
  exact ⟨s, after, returned, reached, steps, statuses, answersOwn_of_orderly reached steps⟩

/-- A reservation is on the way while the proxy recovers from a break of its stream. -/
def overtaken : List ProxyStep :=
  [.appendReservation [7] [1] [[9]] 10 60 10, .breakStream, .nodeOp (.put 11 5 0 60 0 none [9]),
    .nodeTick 12 .inOrder 1, .drain, .testFlag .inOrder, .checkClients 13,
    .appendReservation [7] [2] [[9]] 13 60 13, .receive, .drain]

/-- The client is told of an error, asks again, and is then given the reservation for its
first request. -/
theorem answers_other_request :
    ∃ s after returned, Reached [8] (fun _ _ => True) s ∧
      s.step [8] (.testFlag .inOrder) = some (after, returned) ∧
      returned.map (fun r => (r.clientId, r.requestId, r.status)) = [([7], [1], .matched)] ∧
      s.outstanding [7] = some [2] := by
  have played : ((start.play [8] (fun _ _ => True) overtaken).bind fun s =>
      (s.step [8] (.testFlag .inOrder)).map fun next =>
        (next.2.map (fun r => (r.clientId, r.requestId, r.status)), s.outstanding [7])) =
        some ([([7], [1], .matched)], some [2]) := by
    decide +kernel
  obtain ⟨s, isState, last⟩ := Option.bind_eq_some_iff.mp played
  obtain ⟨⟨after, returned⟩, steps, same⟩ := Option.map_eq_some_iff.mp last
  injection same with isReturned isOutstanding
  exact ⟨s, after, returned, Reached.start.play isState, steps, isReturned, isOutstanding⟩

end ProxySystem

end Coolbeans
