import Coolbeans.ProxyClient
import Coolbeans.RequestLedger

/-!
# What a node answers to a proxy

A request of a client of a proxy is awaited by the node under the client's URI.  A tick
sends the proxy answers to its own clients, one to each, and a query of the proxy reports a
client as not waiting only if the node does not await it.
-/

namespace Coolbeans

open FiniteMap StatefulProgram

/-! ## What the node does -/

section Node

variable {kinds : Kinds} {node : JSM} {nodeSecs : Int64}

/-- A message says who an answer is for, in the words of the proxy. -/
def MessageOf (r : Reservation) (v1r : V1Reservation) : Prop :=
  ∃ uri : ClientURI, r.clientId = uri.toClientID ∧ v1r.proxyId = uri.proxyID ∧
    v1r.clientId = uri.clientID ∧ v1r.requestId = r.requestId ∧ v1r.status = r.status

theorem messageOf_of_toV1Reservation {r : Reservation} {v1r : V1Reservation} {uri : ClientURI}
    (isClient : r.clientId = uri.toClientID) (made : toV1Reservation r = some v1r) :
    MessageOf r v1r := by
  unfold toV1Reservation at made
  rw [isClient, ClientURI.parse_toClientID] at made
  cases made
  exact ⟨uri, isClient, rfl, rfl, rfl, rfl⟩

/-- What the node has done with the request of a client. -/
def Reserved (req : ReserveRequest) (before : JSM) (resv : V1Reservation) (after : JSM) : Prop :=
  resv.clientId = req.clientId ∧ ∃ uri : ClientURI, uri.proxyID = req.proxyId ∧
    uri.clientID = req.clientId ∧
    ((resv.status = .queued ∧ ∀ request, after.Awaits request ↔ before.Awaits request ∨
        request = ⟨uri.toClientID, req.requestId, req.watchedTubes⟩) ∨
      resv.status ≠ .queued ∧ Settles [] before after)

theorem ends_applyReserve (containers : ContainersOk .anyRun node) {req : ReserveRequest}
    (tubes : req.watchedTubes.Nodup) (clock : nodeSecs.toInt < 2 ^ 62) :
    (fsmApply nodeSecs (.reserve req) node).Ends
      (fun resv after => ContainersOk .anyRun after ∧ Reserved req node resv after)
      (fun _ after => ContainersOk .anyRun after ∧ Settles [] node after) True := by
  change (applyReserve nodeSecs req node).Ends _ _ _
  unfold applyReserve
  cases made : ClientURI.new req.proxyId req.clientId with
  | none => exact ⟨containers, .refl node⟩
  | some uri =>
      have isURI := ClientURI.ids_of_new made
      have proper : (Op.appendReservation uri.toClientID req.requestId req.watchedTubes nodeSecs
          (nodeSecs + req.timeoutSecs.toInt64)).Proper := by
        refine ⟨?_, tubes⟩
        intro read isClock
        cases isClock
        exact clock
      have call := admissible_proper.ends_call containers proper rfl
      dsimp only [requireURI]
      rw [Prog.pure_andThen]
      have refuses : ∀ error after, ContainersOk .anyRun after ∧ RequestStep node
          (.appendReservation uri.toClientID req.requestId req.watchedTubes nodeSecs
            (nodeSecs + req.timeoutSecs.toInt64)) (.error error) after →
          ContainersOk .anyRun after ∧ Settles [] node after := by
        intro error after done
        obtain ⟨kept, step⟩ := done
        cases step with
        | kept _ settles => exact ⟨kept, settles⟩
      apply Prog.ends_bind (Prog.ends_mapErr (call.mono (fun _ _ holds => holds) refuses
        fun _ => trivial))
      intro r after done
      obtain ⟨kept, step⟩ := done
      have isClient : r.clientId = uri.toClientID ∧ r.requestId = req.requestId ∧
          ((r.status = .queued ∧ ∀ request, after.Awaits request ↔ node.Awaits request ∨
              request = ⟨uri.toClientID, req.requestId, req.watchedTubes⟩) ∨
            r.status ≠ .queued ∧ Settles [] node after) := by
        cases step with
        | kept unreserved => exact absurd rfl ((unreserved trivial _ rfl).1 r)
        | queued addressed status _ adds =>
            exact ⟨addressed.1, addressed.2, Or.inl ⟨status, adds⟩⟩
        | matched addressed status settles =>
            exact ⟨addressed.1, addressed.2, Or.inr ⟨by simp [status], settles⟩⟩
      obtain ⟨sameClient, _, outcome⟩ := isClient
      unfold toV1Reservation
      rw [sameClient, ClientURI.parse_toClientID]
      exact ⟨kept, isURI.2, uri, isURI.1, isURI.2, outcome⟩

/-! ### Ticks -/

theorem lookup_addToProxy (proxyID : ProxyID) (groups : FMap ProxyID (List V1Reservation))
    (v1r : V1Reservation) :
    (addToProxy groups v1r).lookup proxyID =
      if v1r.proxyId = proxyID then some (ProxySystem.answersFor proxyID groups ++ [v1r])
      else groups.lookup proxyID := by
  unfold addToProxy ProxySystem.answersFor
  by_cases same : v1r.proxyId = proxyID
  · subst proxyID
    cases found : groups.lookup v1r.proxyId <;> simp [lookup_insert]
  · have different : proxyID ≠ v1r.proxyId := fun isSame => same isSame.symm
    cases found : groups.lookup v1r.proxyId <;> simp [lookup_insert, same, different]

theorem answersFor_addToProxy (proxyID : ProxyID) (groups : FMap ProxyID (List V1Reservation))
    (v1r : V1Reservation) :
    ProxySystem.answersFor proxyID (addToProxy groups v1r) =
      ProxySystem.answersFor proxyID groups ++ if v1r.proxyId = proxyID then [v1r] else [] := by
  rw [ProxySystem.answersFor, lookup_addToProxy]
  split
  next => rfl
  next => rw [List.append_nil, ProxySystem.answersFor]

theorem answersFor_foldl (proxyID : ProxyID) (entries : List V1Reservation)
    (groups : FMap ProxyID (List V1Reservation)) :
    ProxySystem.answersFor proxyID (entries.foldl addToProxy groups) =
      ProxySystem.answersFor proxyID groups ++
        entries.filter fun v1r => decide (v1r.proxyId = proxyID) := by
  induction entries generalizing groups with
  | nil => simp
  | cons v1r entries induction =>
      rw [List.foldl_cons, induction, answersFor_addToProxy, List.append_assoc]
      by_cases same : v1r.proxyId = proxyID <;> simp [same]

theorem forall₂_of_mapM {α β : Type} {convert : α → Option β} {items : List α} {results : List β}
    (made : items.mapM convert = some results) :
    List.Forall₂ (fun item result => convert item = some result) items results := by
  induction items generalizing results with
  | nil =>
      cases made
      exact .nil
  | cons item items induction =>
      rw [List.mapM_cons] at made
      obtain ⟨result, isFirst, made⟩ := Option.bind_eq_some_iff.mp made
      obtain ⟨rest, isRest, made⟩ := Option.bind_eq_some_iff.mp made
      cases made
      exact .cons isFirst (induction isRest)

theorem exists_of_forall₂ {α β : Type} {related : α → β → Prop} {items : List α}
    {results : List β} (all : List.Forall₂ related items results) {result : β}
    (member : result ∈ results) : ∃ item ∈ items, related item result := by
  induction all with
  | nil => cases member
  | @cons item first items results isRelated _ induction =>
      rcases List.mem_cons.mp member with rfl | later
      · exact ⟨item, List.mem_cons_self, isRelated⟩
      · obtain ⟨found, inside, isFound⟩ := induction later
        exact ⟨found, List.mem_cons_of_mem _ inside, isFound⟩

theorem forall₂_messages {resvs : List Reservation} {entries : List V1Reservation}
    (named : ∀ r ∈ resvs, ∃ uri : ClientURI, r.clientId = uri.toClientID)
    (made : resvs.mapM toV1Reservation = some entries) :
    List.Forall₂ MessageOf resvs entries := by
  have converted := forall₂_of_mapM made
  clear made
  induction converted with
  | nil => exact .nil
  | @cons r v1r _ _ isFirst _ induction =>
      obtain ⟨uri, isClient⟩ := named r List.mem_cons_self
      exact .cons (messageOf_of_toV1Reservation isClient isFirst)
        (induction fun other member => named other (List.mem_cons_of_mem _ member))

/-- What the node sends to a proxy in a tick: answers to its own clients, one to each. -/
structure TickSends (proxyID : ProxyID) (resvs : List Reservation)
    (sent : List V1Reservation) : Prop where
  distinct : (sent.map (·.clientId)).Nodup
  answers : ∀ v1r ∈ sent, ∃ r ∈ resvs, MessageOf r v1r ∧ v1r.proxyId = proxyID

theorem tickSends_of_messages {proxyID : ProxyID} {resvs : List Reservation}
    {entries : List V1Reservation} (messages : List.Forall₂ MessageOf resvs entries)
    (nodup : (resvs.map (·.clientId)).Nodup) :
    TickSends proxyID resvs (entries.filter fun v1r => decide (v1r.proxyId = proxyID)) := by
  induction messages with
  | nil => exact ⟨List.nodup_nil, by simp⟩
  | @cons r v1r resvs entries isMessage rest induction =>
      rw [List.map_cons, List.nodup_cons] at nodup
      have later := induction nodup.2
      have answers : ∀ other ∈ entries.filter fun v1r => decide (v1r.proxyId = proxyID),
          ∃ r' ∈ r :: resvs, MessageOf r' other ∧ other.proxyId = proxyID := by
        intro other member
        obtain ⟨found, inside, isAnswer⟩ := later.answers other member
        exact ⟨found, List.mem_cons_of_mem _ inside, isAnswer⟩
      by_cases same : v1r.proxyId = proxyID
      · rw [List.filter_cons_of_pos (by simpa using same)]
        refine ⟨?_, ?_⟩
        · rw [List.map_cons, List.nodup_cons]
          refine ⟨fun listed => ?_, later.distinct⟩
          obtain ⟨other, member, sameClient⟩ := List.mem_map.mp listed
          obtain ⟨found, inside, ⟨uri, isFound, isProxy, isClient, _⟩, otherProxy⟩ :=
            later.answers other member
          obtain ⟨first, isFirst, firstProxy, firstClient, _⟩ := isMessage
          -- the same client of the same proxy has one name only
          have sameURI : uri = first := ClientURI.ext
            (by rw [← isProxy, ← firstProxy, otherProxy, same])
            (by rw [← isClient, ← firstClient, sameClient])
          apply nodup.1
          rw [isFirst, ← sameURI, ← isFound]
          exact List.mem_map_of_mem inside
        · intro other member
          rcases List.mem_cons.mp member with isFirst | later
          · rw [isFirst]
            exact ⟨r, List.mem_cons_self, isMessage, same⟩
          · exact answers other later
      · rw [List.filter_cons_of_neg (by simpa using same)]
        exact ⟨later.distinct, answers⟩

/-- A tick of the node settles requests; what it sends to a proxy are some of the answers. -/
theorem ends_applyTick (containers : ContainersOk .anyRun node) {walk : TubeWalk}
    (clock : nodeSecs.toInt < 2 ^ 62) (proxyID : ProxyID)
    (named : ∀ request, node.Awaits request →
      ∃ uri : ClientURI, request.clientId = uri.toClientID) :
    (fsmApply nodeSecs (.tick walk) node).Ends
      (fun groups after => ContainersOk .anyRun after ∧ ∃ resvs, Settles resvs node after ∧
        TickSends proxyID resvs (ProxySystem.answersFor proxyID groups))
      (fun _ after => ContainersOk .anyRun after ∧ ∃ resvs, Settles resvs node after) True := by
  change (applyTick nodeSecs walk node).Ends _ _ _
  have proper : (Op.tick nodeSecs walk).Proper := by
    refine ⟨?_, trivial⟩
    intro read isClock
    cases isClock
    exact clock
  have call := admissible_proper.ends_call containers proper rfl
  apply Prog.ends_bind (Prog.ends_mapErr (call.mono (fun _ _ holds => holds)
    (fun _ after done => ?_) fun _ => trivial))
  · intro rs after done
    obtain ⟨kept, step⟩ := done
    have settles : Settles rs node after := by
      cases step with
      | kept unreserved => exact absurd rfl ((unreserved trivial _ rfl).2 rs)
      | ticked _ settles => exact settles
    have isNamed : ∀ r ∈ rs, ∃ uri : ClientURI, r.clientId = uri.toClientID := by
      intro r member
      obtain ⟨request, awaits, sameClient, _⟩ := settles.awaited r member
      rw [sameClient]
      exact named request awaits
    cases made : rs.mapM toV1Reservation with
    | none => exact ⟨kept, rs, settles⟩
    | some entries =>
        refine ⟨kept, rs, settles, ?_⟩
        rw [answersFor_foldl]
        exact tickSends_of_messages (forall₂_messages isNamed made) settles.nodup
  · obtain ⟨kept, step⟩ := done
    cases step with
    | kept _ settles => exact ⟨kept, [], settles⟩

/-! ### Queries -/

theorem standing_of_awaits {node : JSM} {request : Request} (awaits : node.Awaits request) :
    node.standing request.clientId = .waiting := by
  obtain ⟨cli, member, isClient, isWaiting, _⟩ := awaits
  unfold JSM.standing
  rw [(node.clients.find_eq_ok_iff request.clientId cli).mpr ⟨member, isClient⟩]
  simp [isWaiting]

theorem mem_toStrings {clientIds names : List ClientID} (made : toStrings clientIds = some names)
    {clientID : ClientID} (member : clientID ∈ names) :
    ∃ name ∈ clientIds, ∃ uri, ClientURI.parse name = some uri ∧ uri.clientID = clientID := by
  obtain ⟨name, inside, isName⟩ := exists_of_forall₂ (forall₂_of_mapM made) member
  exact ⟨name, inside, Option.map_eq_some_iff.mp isName⟩

/-- Clients that are reported as not waiting or missing are not awaited. -/
theorem ends_applyCheckState (node : JSM) (req : CheckClientStateRequest) (nodeSecs : Int64) :
    (fsmApply nodeSecs (.checkClientState req) node).Ends
      (fun resp _ => ∀ uri : ClientURI, uri.proxyID = req.proxyId →
        uri.clientID ∈ resp.notWaitingClientIds ++ resp.missingClientIds →
          node.standing uri.toClientID ≠ .waiting)
      (fun _ _ => True) True := by
  change (applyCheckState req node).Ends _ _ _
  unfold applyCheckState
  cases made : req.clientIds.mapM fun id =>
      (ClientURI.new req.proxyId id).map (·.toClientID) with
  | none => trivial
  | some names =>
      have reported : ∀ standing strings, standing ≠ .waiting →
          toStrings (node.checkClientState names standing) = some strings →
          ∀ uri : ClientURI, uri.proxyID = req.proxyId → uri.clientID ∈ strings →
            node.standing uri.toClientID ≠ .waiting := by
        intro standing strings notWaiting isStrings uri isProxy member
        obtain ⟨name, inside, parsed, isParsed, sameClient⟩ := mem_toStrings isStrings member
        obtain ⟨inNames, stands⟩ := List.mem_filter.mp inside
        obtain ⟨id, _, isName⟩ := exists_of_forall₂ (forall₂_of_mapM made) inNames
        obtain ⟨asked, isNew, rfl⟩ := Option.map_eq_some_iff.mp isName
        rw [ClientURI.parse_toClientID] at isParsed
        cases isParsed
        have sameURI : uri = parsed := ClientURI.ext
          (isProxy.trans (ClientURI.ids_of_new isNew).1.symm) sameClient.symm
        rw [sameURI]
        exact fun isWaiting => notWaiting ((of_decide_eq_true stands).symm.trans isWaiting)
      dsimp only [requireURI]
      rw [Prog.pure_andThen, Prog.gets_bind]
      cases isMissing : toStrings (node.checkClientState names .missing) with
      | none => trivial
      | some missing =>
      cases isWaiting : toStrings (node.checkClientState names .waiting) with
      | none => trivial
      | some waiting =>
      cases isNotWaiting : toStrings (node.checkClientState names .notWaiting) with
      | none => trivial
      | some notWaiting =>
          intro uri isProxy member
          rcases List.mem_append.mp member with inNotWaiting | inMissing
          · exact reported _ _ (by simp) isNotWaiting uri isProxy inNotWaiting
          · exact reported _ _ (by simp) isMissing uri isProxy inMissing

end Node

end Coolbeans
