import Coolbeans.ControllerDeadlock

/-!
# Channels of the reservations controller

In every run of the controller and its handlers the handler that is registered for a proxy
has an open channel and listens on it.  So the loop `Run` sends on open channels only and
closes none twice, a proxy has at most one handler, and a handler that is refused leaves the
one that is there alone.
-/

namespace Coolbeans

open FiniteMap

namespace RunState

/-- The messages of a tick that the loop still has to send. -/
def sends : RunState → List (Nat × ProxyResp)
  | .sending sends => sends
  | _ => []

@[simp]
theorem sends_toSend (messages : List (Nat × ProxyResp)) : (toSend messages).sends = messages := by
  cases messages <;> rfl

end RunState

namespace Controller

/-! ## Registered handlers -/

/-- The handler that is registered for a proxy is one of this proxy, it has an open channel,
and it listens unless the loop is about to answer it.  Its messages are those of a tick. -/
structure Enrolled (proxyOf : Nat → ProxyID) (ctrl : Controller) : Prop where
  own : ∀ proxyID handler, ctrl.connProxies.lookup proxyID = some handler →
    proxyOf handler = proxyID
  isOpen : ∀ proxyID handler, ctrl.connProxies.lookup proxyID = some handler →
    ctrl.closed handler = false
  heard : ∀ proxyID handler, ctrl.connProxies.lookup proxyID = some handler →
    Listens (ctrl.handlers handler) ∨
      (∃ resp, ctrl.run = .answeringJoin handler resp ∧ resp.errProxyExists = false) ∨
      ctrl.run = .answeringLeave proxyID handler
  sends : ∀ send ∈ ctrl.run.sends, (∃ proxyID, ctrl.connProxies.lookup proxyID = some send.1) ∧
    send.2.respType = .reservation ∧ send.2.errProxyExists = false
  forwarded : ∀ handler resp, ctrl.handlers handler = .forwarding resp →
    resp.respType = .reservation ∧ resp.errProxyExists = false

section Enrolment

variable {proxyOf : Nat → ProxyID} {ctrl after : Controller} {taken : ControllerStep}

theorem enrolled_start : Enrolled proxyOf {} where
  own _ _ found := by simp at found
  isOpen _ _ found := by simp at found
  heard _ _ found := by simp at found
  sends _ member := absurd member List.not_mem_nil
  forwarded _ _ state := by cases state

/-- While the loop is at its select or in a tick, the registered handlers listen. -/
theorem Enrolled.listens (enrolled : Enrolled proxyOf ctrl)
    (notAnswering : ctrl.run = .selecting ∨ ∃ messages, ctrl.run = .sending messages)
    {proxyID : ProxyID} {handler : Nat}
    (registered : ctrl.connProxies.lookup proxyID = some handler) :
    Listens (ctrl.handlers handler) := by
  rcases enrolled.heard proxyID handler registered with listens | ⟨resp, run, _⟩ | run
  · exact listens
  · rcases notAnswering with other | ⟨messages, other⟩ <;> simp [run] at other
  · rcases notAnswering with other | ⟨messages, other⟩ <;> simp [run] at other

/-- Only messages of a tick are forwarded, also after a handler has moved on. -/
theorem Enrolled.forwarded_setHandler {handler : Nat} {state : HandlerState}
    (enrolled : Enrolled proxyOf ctrl)
    (forwards : ∀ resp, state = .forwarding resp →
      resp.respType = .reservation ∧ resp.errProxyExists = false)
    (other : Nat) (resp : ProxyResp)
    (isState : (ctrl.setHandler handler state).handlers other = .forwarding resp) :
    resp.respType = .reservation ∧ resp.errProxyExists = false := by
  rw [setHandler_handlers] at isState
  split at isState
  case isTrue => exact forwards resp isState
  case isFalse => exact enrolled.forwarded other resp isState

theorem Enrolled.setHandler {handler : Nat} {state : HandlerState}
    (enrolled : Enrolled proxyOf ctrl)
    (stays : ∀ proxyID, ctrl.connProxies.lookup proxyID = some handler →
      Listens (ctrl.handlers handler) → Listens state)
    (forwards : ∀ resp, state = .forwarding resp →
      resp.respType = .reservation ∧ resp.errProxyExists = false) :
    Enrolled proxyOf (ctrl.setHandler handler state) where
  own := enrolled.own
  isOpen := enrolled.isOpen
  heard := by
    intro proxyID other registered
    rcases enrolled.heard proxyID other registered with listens | answering
    · left
      rw [setHandler_handlers]
      split
      case isTrue same =>
        subst same
        exact stays proxyID registered listens
      case isFalse => exact listens
    · exact Or.inr answering
  sends := enrolled.sends
  forwarded := enrolled.forwarded_setHandler forwards

theorem Enrolled.setRun (enrolled : Enrolled proxyOf ctrl)
    (notAnswering : ctrl.run = .selecting ∨ ∃ messages, ctrl.run = .sending messages)
    (run : RunState)
    (sends : ∀ send ∈ run.sends, (∃ proxyID, ctrl.connProxies.lookup proxyID = some send.1) ∧
      send.2.respType = .reservation ∧ send.2.errProxyExists = false) :
    Enrolled proxyOf { ctrl with run } where
  own := enrolled.own
  isOpen := enrolled.isOpen
  heard _ _ registered := Or.inl (enrolled.listens notAnswering registered)
  sends := sends
  forwarded := enrolled.forwarded

theorem tickSends_reservation {connProxies : FMap ProxyID Nat}
    {proxyReservations : List (ProxyID × List V1Reservation)} {walk : List ProxyID}
    {send : Nat × ProxyResp} (member : send ∈ tickSends connProxies proxyReservations walk) :
    (∃ proxyID, connProxies.lookup proxyID = some send.1) ∧
      send.2.respType = .reservation ∧ send.2.errProxyExists = false := by
  refine ⟨registered_of_tickSends (List.mem_map_of_mem member), ?_⟩
  rw [tickSends, ← List.filterMap_append, List.mem_filterMap] at member
  obtain ⟨entry, _, found⟩ := member
  obtain ⟨respCh, _, rfl⟩ := Option.map_eq_some_iff.mp found
  exact ⟨rfl, rfl⟩

theorem Enrolled.joined {handler : Nat} (enrolled : Enrolled proxyOf ctrl)
    (coherent : Coherent proxyOf ctrl) (selecting : ctrl.run = .selecting)
    (joining : ctrl.handlers handler = .joining) {resp : ProxyResp}
    (accepted : resp.errProxyExists = false) :
    Enrolled proxyOf { ctrl.setHandler handler .awaitingJoin with
      connProxies := ctrl.connProxies.insert (proxyOf handler) handler
      run := .answeringJoin handler resp } := by
  have isOpen : ctrl.closed handler = false := by
    cases closed : ctrl.closed handler with
    | false => rfl
    | true => exact absurd joining (coherent.opened handler closed).2.2
  have registers : ∀ proxyID other,
      (ctrl.connProxies.insert (proxyOf handler) handler).lookup proxyID = some other →
      proxyID = proxyOf handler ∧ other = handler ∨
        other ≠ handler ∧ ctrl.connProxies.lookup proxyID = some other := by
    intro proxyID other registered
    rw [lookup_insert] at registered
    split at registered
    case isTrue same =>
      cases registered
      exact Or.inl ⟨same, rfl⟩
    case isFalse =>
      refine Or.inr ⟨?_, registered⟩
      rintro rfl
      have listens := enrolled.listens (Or.inl selecting) registered
      simp [joining, Listens] at listens
  constructor
  case sends => exact fun _ member => absurd member List.not_mem_nil
  case forwarded => exact enrolled.forwarded_setHandler (by simp)
  all_goals
    intro proxyID other registered
    rcases registers proxyID other registered with ⟨rfl, rfl⟩ | ⟨different, registered⟩
  case own.inl => rfl
  case own.inr => exact enrolled.own proxyID other registered
  case isOpen.inl => exact isOpen
  case isOpen.inr => exact enrolled.isOpen proxyID other registered
  case heard.inl => exact Or.inr (Or.inl ⟨resp, rfl, accepted⟩)
  case heard.inr =>
    left
    change Listens ((ctrl.setHandler handler .awaitingJoin).handlers other)
    rw [setHandler_handlers, if_neg different]
    exact enrolled.listens (Or.inl selecting) registered

/-- A handler that was refused is not the registered one, so its channel may be closed. -/
theorem Enrolled.refused {handler : Nat} {resp : ProxyResp} (enrolled : Enrolled proxyOf ctrl)
    (answering : ctrl.run = .answeringJoin handler resp) (refused : resp.errProxyExists = true)
    (awaiting : ctrl.handlers handler = .awaitingJoin) :
    Enrolled proxyOf
      ((Controller.setHandler handler .rejected { ctrl with run := .selecting }).closeCh
        handler) := by
  have others : ∀ proxyID other, ctrl.connProxies.lookup proxyID = some other →
      Listens (ctrl.handlers other) ∧ other ≠ handler := by
    intro proxyID other registered
    have listens : Listens (ctrl.handlers other) := by
      rcases enrolled.heard proxyID other registered with listens | ⟨resp, run, accepted⟩ | run
      · exact listens
      · obtain ⟨rfl, rfl⟩ := RunState.answeringJoin.inj (answering.symm.trans run)
        simp [refused] at accepted
      · simp [answering] at run
    refine ⟨listens, ?_⟩
    rintro rfl
    simp [awaiting, Listens] at listens
  constructor
  case own => exact enrolled.own
  case isOpen =>
    intro proxyID other registered
    have different := (others proxyID other registered).2
    change Function.update ctrl.closed handler true other = false
    rw [Function.update_of_ne different]
    exact enrolled.isOpen proxyID other registered
  case heard =>
    intro proxyID other registered
    obtain ⟨listens, different⟩ := others proxyID other registered
    left
    change Listens ((ctrl.setHandler handler .rejected).handlers other)
    rw [setHandler_handlers, if_neg different]
    exact listens
  case sends => exact fun _ member => absurd member List.not_mem_nil
  case forwarded => exact enrolled.forwarded_setHandler (by simp)

theorem Enrolled.accepted {handler : Nat} {resp : ProxyResp} (enrolled : Enrolled proxyOf ctrl)
    (answering : ctrl.run = .answeringJoin handler resp) :
    Enrolled proxyOf
      (Controller.setHandler handler .receiving { ctrl with run := .selecting }) := by
  constructor
  case own => exact enrolled.own
  case isOpen => exact enrolled.isOpen
  case heard =>
    intro proxyID other registered
    left
    change Listens ((ctrl.setHandler handler .receiving).handlers other)
    rw [setHandler_handlers]
    split
    case isTrue => trivial
    case isFalse different =>
      rcases enrolled.heard proxyID other registered with listens | ⟨resp, run, _⟩ | run
      · exact listens
      · obtain ⟨rfl, _⟩ := RunState.answeringJoin.inj (answering.symm.trans run)
        exact absurd rfl different
      · simp [answering] at run
  case sends => exact fun _ member => absurd member List.not_mem_nil
  case forwarded => exact enrolled.forwarded_setHandler (by simp)

theorem Enrolled.leaves {handler : Nat} (enrolled : Enrolled proxyOf ctrl)
    (selecting : ctrl.run = .selecting) :
    Enrolled proxyOf { ctrl.setHandler handler .draining with
      run := .answeringLeave (proxyOf handler) handler } := by
  constructor
  case own => exact enrolled.own
  case isOpen => exact enrolled.isOpen
  case heard =>
    intro proxyID other registered
    by_cases same : other = handler
    · subst same
      rw [← enrolled.own proxyID other registered]
      exact Or.inr (Or.inr rfl)
    · left
      change Listens ((ctrl.setHandler handler .draining).handlers other)
      rw [setHandler_handlers, if_neg same]
      exact enrolled.listens (Or.inl selecting) registered
  case sends => exact fun _ member => absurd member List.not_mem_nil
  case forwarded => exact enrolled.forwarded_setHandler (by simp)

theorem Enrolled.left {proxyID : ProxyID} {respCh : Nat} (enrolled : Enrolled proxyOf ctrl)
    (answering : ctrl.run = .answeringLeave proxyID respCh)
    (drains : ctrl.handlers respCh = .draining) :
    Enrolled proxyOf { ctrl.closeCh respCh with
      run := .selecting
      connProxies := ctrl.connProxies.erase proxyID } := by
  have remain : ∀ other handler,
      (ctrl.connProxies.erase proxyID).lookup other = some handler →
      ctrl.connProxies.lookup other = some handler ∧ Listens (ctrl.handlers handler) := by
    intro other handler registered
    rw [lookup_erase] at registered
    split at registered
    case isTrue => cases registered
    case isFalse different =>
      refine ⟨registered, ?_⟩
      rcases enrolled.heard other handler registered with listens | ⟨resp, run, _⟩ | run
      · exact listens
      · simp [answering] at run
      · obtain ⟨same, _⟩ := RunState.answeringLeave.inj (answering.symm.trans run)
        exact absurd same.symm different
  constructor
  case own =>
    intro other handler registered
    exact enrolled.own other handler (remain other handler registered).1
  case isOpen =>
    intro other handler registered
    obtain ⟨before, listens⟩ := remain other handler registered
    have different : handler ≠ respCh := by
      rintro rfl
      simp [drains, Listens] at listens
    change Function.update ctrl.closed respCh true handler = false
    rw [Function.update_of_ne different]
    exact enrolled.isOpen other handler before
  case heard =>
    intro other handler registered
    exact Or.inl (remain other handler registered).2
  case sends => exact fun _ member => absurd member List.not_mem_nil
  case forwarded => exact enrolled.forwarded

theorem Enrolled.sent {send : Nat × ProxyResp} {sends : List (Nat × ProxyResp)}
    (enrolled : Enrolled proxyOf ctrl) (sending : ctrl.run = .sending (send :: sends)) :
    Enrolled proxyOf { ctrl with run := .toSend sends } := by
  apply enrolled.setRun (Or.inr ⟨_, sending⟩)
  intro later member
  rw [RunState.sends_toSend] at member
  apply enrolled.sends later
  rw [sending]
  exact List.mem_cons_of_mem _ member

theorem Enrolled.steps (enrolled : Enrolled proxyOf ctrl) (coherent : Coherent proxyOf ctrl)
    (steps : Steps proxyOf ctrl taken after) : Enrolled proxyOf after := by
  cases steps with
  | joinRefused handler other selecting joining known =>
      have moved : Enrolled proxyOf (ctrl.setHandler handler .awaitingJoin) := by
        apply enrolled.setHandler
        · intro proxyID registered listens
          simp [joining, Listens] at listens
        · intro resp state
          cases state
      exact moved.setRun (Or.inl selecting) _ (fun _ member => absurd member List.not_mem_nil)
  | joinAccepted handler selecting joining unknown =>
      exact enrolled.joined coherent selecting joining rfl
  | refusalReceived handler resp answering refused awaiting =>
      exact enrolled.refused answering refused awaiting
  | acceptanceReceived handler resp answering accepted awaiting =>
      exact enrolled.accepted answering
  | tickFailed => exact enrolled
  | ticked proxyReservations walk selecting walks =>
      apply enrolled.setRun (Or.inl selecting)
      intro send member
      rw [RunState.sends_toSend] at member
      exact tickSends_reservation member
  | delivered respCh resp sends sending received receives =>
      rcases receive_cases receives with ⟨receiving, rfl⟩ | ⟨_, rfl⟩
      · have moved : Enrolled proxyOf (ctrl.setHandler respCh (.forwarding resp)) := by
          apply enrolled.setHandler
          · intro _ _ _
            trivial
          · intro forwarded same
            cases same
            exact (enrolled.sends (respCh, resp) (by rw [sending]; exact List.mem_cons_self)).2
        exact moved.sent sending
      · exact enrolled.sent sending
  | wentOn handler resp forwarding =>
      exact enrolled.setHandler (fun _ _ _ => trivial) (fun _ state => by cases state)
  | gaveUp handler resp forwarding =>
      exact enrolled.setHandler (fun _ _ _ => trivial) (fun _ state => by cases state)
  | leftUnknown handler selecting leaving unknown =>
      apply enrolled.setHandler _ (fun _ state => by cases state)
      intro proxyID registered
      rw [← enrolled.own proxyID handler registered, unknown] at registered
      cases registered
  | leaveTaken handler respCh selecting leaving known =>
      have own := coherent.registered handler (by simp [Listens, leaving])
      obtain rfl := Option.some.inj (known.symm.trans own)
      exact enrolled.leaves selecting
  | leaveAnswered proxyID respCh answering received receives =>
      have drains := (coherent.leaving proxyID respCh answering).1
      rcases receive_cases receives with ⟨receiving, rfl⟩ | ⟨_, rfl⟩
      · simp [drains] at receiving
      · exact enrolled.left answering drains
  | closedWhileReceiving handler closed receiving =>
      exact absurd (by simp [Listens, receiving]) (coherent.opened handler closed).1
  | drained handler closed draining =>
      apply enrolled.setHandler _ (fun _ state => by cases state)
      intro proxyID registered listens
      simp [draining, Listens] at listens
  | stopped selecting =>
      exact enrolled.setRun (Or.inl selecting) _ (fun _ member => absurd member List.not_mem_nil)

theorem Reaches.enrolled {allowed : ControllerStep → Controller → Prop}
    (reached : Reaches proxyOf allowed ctrl) : Enrolled proxyOf ctrl := by
  induction reached with
  | start => exact enrolled_start
  | step taken reached _ stepped enrolled =>
      exact enrolled.steps reached.coherent (steps_of_step stepped)

end Enrolment

/-! ## Channels -/

/-- The channel that a step closes. -/
def closes (ctrl : Controller) : ControllerStep → Option Nat
  | .answerJoin =>
      match ctrl.run with
      | .answeringJoin handler resp => if resp.errProxyExists then some handler else none
      | _ => none
  | .answerLeave =>
      match ctrl.run with
      | .answeringLeave _ respCh => some respCh
      | _ => none
  | _ => none

/-- The loop refuses the handler, or has refused it and waits for it to hear so. -/
def Refuses (proxyOf : Nat → ProxyID) (ctrl : Controller) (handler : Nat) :
    ControllerStep → Prop
  | .requestJoin asking => asking = handler ∧ ctrl.connProxies.lookup (proxyOf handler) ≠ none
  | .answerJoin => ∃ resp, ctrl.run = .answeringJoin handler resp ∧ resp.errProxyExists = true
  | _ => False

/-- What holds in every state of the controller and its handlers: the loop sends on open
channels and closes open channels, no proxy has two handlers, and a step that refuses a
handler leaves the registrations, the other handlers and their channels as they are. -/
structure Disciplined (proxyOf : Nat → ProxyID) (ctrl : Controller) : Prop where
  sendsOpen : ∀ respCh ∈ ctrl.run.pending, ctrl.closed respCh = false
  closesOpen : ∀ taken, ∀ respCh ∈ ctrl.closes taken, ctrl.closed respCh = false
  oneHandler : ∀ first second, Listens (ctrl.handlers first) → Listens (ctrl.handlers second) →
    proxyOf first = proxyOf second → first = second
  refusal : ∀ handler taken after, ctrl.Refuses proxyOf handler taken →
    ctrl.step proxyOf taken = some after →
      after.connProxies = ctrl.connProxies ∧ ∀ other, other ≠ handler →
        after.handlers other = ctrl.handlers other ∧ after.closed other = ctrl.closed other

section Discipline

variable {proxyOf : Nat → ProxyID} {ctrl after : Controller} {taken : ControllerStep}

theorem open_of_pending (coherent : Coherent proxyOf ctrl) (enrolled : Enrolled proxyOf ctrl)
    {respCh : Nat} (pending : respCh ∈ ctrl.run.pending) : ctrl.closed respCh = false := by
  cases isRun : ctrl.run with
  | selecting | returned =>
      rw [isRun] at pending
      exact absurd pending List.not_mem_nil
  | sending sends =>
      rw [isRun] at pending
      obtain ⟨send, member, rfl⟩ := List.mem_map.mp pending
      obtain ⟨⟨proxyID, registered⟩, _⟩ := enrolled.sends send (by rw [isRun]; exact member)
      exact enrolled.isOpen proxyID send.1 registered
  | answeringJoin handler resp =>
      rw [isRun] at pending
      obtain rfl := List.mem_singleton.mp pending
      have awaiting := (coherent.joining respCh resp isRun).1
      cases closed : ctrl.closed respCh with
      | false => rfl
      | true => exact absurd awaiting (coherent.opened respCh closed).2.1
  | answeringLeave proxyID leaving =>
      rw [isRun] at pending
      obtain rfl := List.mem_singleton.mp pending
      exact (coherent.leaving proxyID respCh isRun).2.2

/-- A channel is closed right after a send on it. -/
theorem pending_of_closes {respCh : Nat} (isClosed : respCh ∈ ctrl.closes taken) :
    respCh ∈ ctrl.run.pending := by
  unfold closes at isClosed
  split at isClosed
  next =>
    split at isClosed
    next handler resp isRun =>
      rw [isRun]
      split at isClosed
      next =>
        cases isClosed
        exact List.mem_singleton.mpr rfl
      next => cases isClosed
    next => cases isClosed
  next =>
    split at isClosed
    next proxyID leaving isRun =>
      rw [isRun]
      cases isClosed
      exact List.mem_singleton.mpr rfl
    next => cases isClosed
  next => cases isClosed

theorem refuses_steps {handler : Nat} (refuses : ctrl.Refuses proxyOf handler taken)
    (steps : Steps proxyOf ctrl taken after) :
    after.connProxies = ctrl.connProxies ∧ ∀ other, other ≠ handler →
      after.handlers other = ctrl.handlers other ∧ after.closed other = ctrl.closed other := by
  cases steps with
  | joinRefused asking registered selecting joining known =>
      obtain ⟨rfl, _⟩ := refuses
      refine ⟨rfl, fun other different => ⟨?_, rfl⟩⟩
      change (ctrl.setHandler asking .awaitingJoin).handlers other = _
      rw [setHandler_handlers, if_neg different]
  | joinAccepted asking selecting joining unknown =>
      obtain ⟨rfl, known⟩ := refuses
      exact absurd unknown known
  | refusalReceived asking resp answering refused awaiting =>
      obtain ⟨other, isRun, _⟩ := refuses
      obtain ⟨rfl, _⟩ := RunState.answeringJoin.inj (answering.symm.trans isRun)
      refine ⟨rfl, fun other different => ⟨?_, ?_⟩⟩
      · exact Function.update_of_ne different _ _
      · exact Function.update_of_ne different _ _
  | acceptanceReceived asking resp answering accepted awaiting =>
      obtain ⟨other, isRun, refused⟩ := refuses
      obtain ⟨_, rfl⟩ := RunState.answeringJoin.inj (answering.symm.trans isRun)
      simp [accepted] at refused
  | _ => exact refuses.elim

theorem Reaches.disciplined {allowed : ControllerStep → Controller → Prop}
    (reached : Reaches proxyOf allowed ctrl) : Disciplined proxyOf ctrl where
  sendsOpen _ pending := open_of_pending reached.coherent reached.enrolled pending
  closesOpen _ _ isClosed :=
    open_of_pending reached.coherent reached.enrolled (pending_of_closes isClosed)
  oneHandler := by
    intro first second firstListens secondListens same
    have firstRegistered := reached.coherent.registered first firstListens
    have secondRegistered := reached.coherent.registered second secondListens
    rw [same, secondRegistered] at firstRegistered
    exact (Option.some.inj firstRegistered).symm
  refusal _ _ _ refuses stepped := refuses_steps refuses (steps_of_step stepped)

end Discipline

end Controller

end Coolbeans
