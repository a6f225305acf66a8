import Coolbeans.ReservationsController

/-!
# Handlers that leave the reservations controller

The loop `Run` sends each message of a tick itself, and a handler that gives up sends its
request to leave; both sends are to the other party.  What the parties know of each other
is kept by every step.  They wait for each other as soon as the loop has a message for a
handler that is on its way out, and never otherwise.
-/

namespace Coolbeans

open FiniteMap

namespace Controller

/-- The loop is blocked sending on a channel whose receiver is blocked sending its request
to leave. -/
def Deadlocked (ctrl : Controller) : Prop :=
  ∃ respCh, ctrl.run.pending.head? = some respCh ∧ ctrl.handlers respCh = .leaving

/-! ## Registered handlers -/

/-- A handler between the answer to its request to join and its request to leave. -/
def Listens : HandlerState → Prop
  | .receiving | .forwarding _ | .leaving => True
  | _ => False

/-- What the loop and the handlers know of each other: a handler that listens is the
registered one of its proxy and has an open channel, and a handler that the loop answers
waits for the answer. -/
structure Coherent (proxyOf : Nat → ProxyID) (ctrl : Controller) : Prop where
  registered : ∀ handler, Listens (ctrl.handlers handler) →
    ctrl.connProxies.lookup (proxyOf handler) = some handler
  joining : ∀ handler resp, ctrl.run = .answeringJoin handler resp →
    ctrl.handlers handler = .awaitingJoin ∧
      (resp.errProxyExists = false →
        ctrl.connProxies.lookup (proxyOf handler) = some handler)
  leaving : ∀ proxyID respCh, ctrl.run = .answeringLeave proxyID respCh →
    ctrl.handlers respCh = .draining ∧ ctrl.connProxies.lookup proxyID = some respCh ∧
      ctrl.closed respCh = false
  opened : ∀ handler, ctrl.closed handler = true →
    ¬Listens (ctrl.handlers handler) ∧ ctrl.handlers handler ≠ .awaitingJoin ∧
      ctrl.handlers handler ≠ .joining

section Coherence

variable {proxyOf : Nat → ProxyID} {ctrl after : Controller} {taken : ControllerStep}

@[simp]
theorem setHandler_handlers (handler other : Nat) (state : HandlerState) :
    (ctrl.setHandler handler state).handlers other =
      if other = handler then state else ctrl.handlers other := by
  simp [setHandler, Function.update_apply]

theorem coherent_start : Coherent proxyOf {} where
  registered _ listens := listens.elim
  joining _ _ run := by cases run
  leaving _ _ run := by cases run
  opened _ closed := by cases closed

theorem Coherent.setHandler {handler : Nat} {state : HandlerState}
    (coherent : Coherent proxyOf ctrl) (listened : Listens state → Listens (ctrl.handlers handler))
    (notAwaiting : ctrl.handlers handler ≠ .awaitingJoin)
    (notAnswered : ∀ proxyID, ctrl.run ≠ .answeringLeave proxyID handler)
    (stays : state ≠ .awaitingJoin ∧ state ≠ .joining) :
    Coherent proxyOf (ctrl.setHandler handler state) where
  registered := by
    intro other listens
    rw [setHandler_handlers] at listens
    split at listens
    case isTrue same =>
      subst same
      exact coherent.registered other (listened listens)
    case isFalse => exact coherent.registered other listens
  joining := by
    intro other resp run
    obtain ⟨awaits, known⟩ := coherent.joining other resp run
    have different : other ≠ handler := by
      rintro rfl
      exact notAwaiting awaits
    rw [setHandler_handlers, if_neg different]
    exact ⟨awaits, known⟩
  leaving := by
    intro proxyID respCh run
    obtain ⟨drains, known⟩ := coherent.leaving proxyID respCh run
    have different : respCh ≠ handler := by
      rintro rfl
      exact notAnswered proxyID run
    rw [setHandler_handlers, if_neg different]
    exact ⟨drains, known⟩
  opened := by
    intro other closed
    rw [setHandler_handlers]
    split
    case isTrue same =>
      subst same
      exact ⟨fun listens => (coherent.opened other closed).1 (listened listens), stays⟩
    case isFalse => exact coherent.opened other closed

theorem Coherent.toSend (coherent : Coherent proxyOf ctrl) (sends : List (Nat × ProxyResp)) :
    Coherent proxyOf { ctrl with run := .toSend sends } where
  registered := coherent.registered
  joining handler resp run := absurd run (RunState.toSend_ne_answeringJoin sends handler resp)
  leaving proxyID respCh run :=
    absurd run (RunState.toSend_ne_answeringLeave sends proxyID respCh)
  opened := coherent.opened

theorem Coherent.awaitingJoin {handler : Nat} (coherent : Coherent proxyOf ctrl)
    (selecting : ctrl.run = .selecting) (joining : ctrl.handlers handler = .joining) :
    Coherent proxyOf (ctrl.setHandler handler .awaitingJoin) where
  registered := by
    intro other listens
    rw [setHandler_handlers] at listens
    split at listens
    case isTrue => exact listens.elim
    case isFalse => exact coherent.registered other listens
  joining other resp run := by simp [Controller.setHandler, selecting] at run
  leaving proxyID respCh run := by simp [Controller.setHandler, selecting] at run
  opened := by
    intro other closed
    have opened := coherent.opened other closed
    rw [setHandler_handlers]
    split
    case isTrue same =>
      subst same
      exact absurd joining opened.2.2
    case isFalse => exact opened

theorem Coherent.forwarded {handler : Nat} {resp : ProxyResp} {state : HandlerState}
    (coherent : Coherent proxyOf ctrl) (forwarding : ctrl.handlers handler = .forwarding resp)
    (stays : state ≠ .awaitingJoin ∧ state ≠ .joining) :
    Coherent proxyOf (ctrl.setHandler handler state) := by
  apply coherent.setHandler _ _ _ stays
  · simp [Listens, forwarding]
  · simp [forwarding]
  · intro proxyID answering
    have drains := (coherent.leaving proxyID handler answering).1
    simp [forwarding] at drains

theorem Coherent.refused {handler : Nat} (coherent : Coherent proxyOf ctrl) :
    Coherent proxyOf
      ((Controller.setHandler handler .rejected { ctrl with run := .selecting }).closeCh
        handler) where
  registered := by
    intro other listens
    rw [closeCh, setHandler_handlers] at listens
    split at listens
    case isTrue => exact listens.elim
    case isFalse => exact coherent.registered other listens
  joining _ _ run := by cases run
  leaving _ _ run := by cases run
  opened := by
    intro other closed
    rw [closeCh, setHandler_handlers]
    split
    case isTrue => simp [Listens]
    case isFalse same =>
      refine coherent.opened other ?_
      simpa [closeCh, Controller.setHandler, Function.update_of_ne same] using closed

theorem Coherent.accepted {handler : Nat} (coherent : Coherent proxyOf ctrl)
    (known : ctrl.connProxies.lookup (proxyOf handler) = some handler)
    (awaiting : ctrl.handlers handler = .awaitingJoin) :
    Coherent proxyOf
      (Controller.setHandler handler .receiving { ctrl with run := .selecting }) where
  registered := by
    intro other listens
    rw [setHandler_handlers] at listens
    split at listens
    case isTrue same =>
      subst same
      exact known
    case isFalse => exact coherent.registered other listens
  joining _ _ run := by cases run
  leaving _ _ run := by cases run
  opened := by
    intro other closed
    have opened := coherent.opened other closed
    rw [setHandler_handlers]
    split
    case isTrue same =>
      subst same
      exact absurd awaiting opened.2.1
    case isFalse => exact opened

theorem Coherent.draining {handler : Nat} (coherent : Coherent proxyOf ctrl)
    (selecting : ctrl.run = .selecting) (leaving : ctrl.handlers handler = .leaving) :
    Coherent proxyOf (ctrl.setHandler handler .draining) := by
  apply coherent.setHandler
  · simp [Listens]
  · simp [leaving]
  · simp [selecting]
  · simp

theorem Coherent.left {proxyID : ProxyID} {respCh : Nat} (coherent : Coherent proxyOf ctrl)
    (drains : ctrl.handlers respCh = .draining)
    (known : ctrl.connProxies.lookup proxyID = some respCh) :
    Coherent proxyOf { ctrl.closeCh respCh with
      run := .selecting
      connProxies := ctrl.connProxies.erase proxyID } where
  registered := by
    intro other listens
    have own := coherent.registered other listens
    have different : proxyOf other ≠ proxyID := by
      rintro rfl
      obtain rfl := Option.some.inj (own.symm.trans known)
      rw [closeCh, drains] at listens
      exact listens
    rw [lookup_erase, if_neg different]
    exact own
  joining _ _ run := by cases run
  leaving _ _ run := by cases run
  opened := by
    intro other closed
    by_cases same : other = respCh
    case pos =>
      subst same
      simp [closeCh, drains, Listens]
    case neg =>
      refine coherent.opened other ?_
      simpa [closeCh, Function.update_of_ne same] using closed

theorem Coherent.steps (coherent : Coherent proxyOf ctrl)
    (steps : Steps proxyOf ctrl taken after) : Coherent proxyOf after := by
  cases steps with
  | joinRefused handler other selecting joining known =>
      have waits := coherent.awaitingJoin selecting joining
      refine ⟨waits.registered, ?_, ?_, waits.opened⟩
      · intro answered resp run
        obtain ⟨rfl, rfl⟩ := RunState.answeringJoin.inj run
        exact ⟨by simp, by simp⟩
      · intro proxyID respCh run
        cases run
  | joinAccepted handler selecting joining unknown =>
      have waits := coherent.awaitingJoin selecting joining
      refine ⟨?_, ?_, ?_, waits.opened⟩
      · intro other listens
        have known : ctrl.connProxies.lookup (proxyOf other) = some other :=
          waits.registered other listens
        have different : proxyOf other ≠ proxyOf handler := by
          intro same
          rw [same, unknown] at known
          cases known
        rw [lookup_insert, if_neg different]
        exact known
      · intro answered resp run
        obtain ⟨rfl, rfl⟩ := RunState.answeringJoin.inj run
        refine ⟨by simp, fun _ => ?_⟩
        rw [lookup_insert, if_pos rfl]
      · intro proxyID respCh run
        cases run
  | refusalReceived => exact coherent.refused
  | acceptanceReceived handler resp answering accepted awaiting =>
      exact coherent.accepted ((coherent.joining handler resp answering).2 accepted) awaiting
  | tickFailed => exact coherent
  | ticked => exact coherent.toSend _
  | delivered respCh resp sends sending received receives =>
      rcases receive_cases receives with ⟨receiving, rfl⟩ | ⟨_, rfl⟩
      · refine (coherent.setHandler ?_ ?_ ?_ ?_).toSend sends
        · simp [Listens, receiving]
        · simp [receiving]
        · simp [sending]
        · simp
      · exact coherent.toSend sends
  | wentOn handler resp forwarding => exact coherent.forwarded forwarding (by simp)
  | gaveUp handler resp forwarding => exact coherent.forwarded forwarding (by simp)
  | leftUnknown handler selecting leaving unknown =>
      exact coherent.draining selecting leaving
  | leaveTaken handler respCh selecting leaving known =>
      have own := coherent.registered handler (by simp [Listens, leaving])
      obtain rfl := Option.some.inj (known.symm.trans own)
      have moved := coherent.draining selecting leaving
      refine ⟨moved.registered, ?_, ?_, moved.opened⟩
      · intro handler resp run
        cases run
      · intro proxyID answered run
        obtain ⟨rfl, rfl⟩ := RunState.answeringLeave.inj run
        refine ⟨by simp, own, ?_⟩
        cases closed : ctrl.closed respCh with
        | false => exact closed
        | true => exact absurd (by simp [Listens, leaving]) (coherent.opened respCh closed).1
  | leaveAnswered proxyID respCh answering received receives =>
      obtain ⟨drains, known, _⟩ := coherent.leaving proxyID respCh answering
      rcases receive_cases receives with ⟨receiving, rfl⟩ | ⟨_, rfl⟩
      · simp [drains] at receiving
      · exact coherent.left drains known
  | closedWhileReceiving handler closed receiving =>
      exact absurd (by simp [Listens, receiving]) (coherent.opened handler closed).1
  | drained handler closed draining =>
      refine coherent.setHandler ?_ ?_ ?_ ?_
      · simp [Listens]
      · simp [draining]
      · intro proxyID answering
        have isOpen := (coherent.leaving proxyID handler answering).2.2
        simp [closed] at isOpen
      · simp
  | stopped selecting =>
      refine ⟨coherent.registered, ?_, ?_, coherent.opened⟩
      · intro handler resp run
        cases run
      · intro proxyID respCh run
        cases run

/-! ## Messages to handlers that leave -/

/-- No handler gives up while the loop has a message for it, and no tick comes while a
registered handler waits to leave. -/
def Timely : ControllerStep → Controller → Prop
  | .tick _ _, ctrl =>
      ∀ proxyID ∈ ctrl.connProxies.keys, ∀ handler ∈ ctrl.connProxies.lookup proxyID,
        ctrl.handlers handler ≠ .leaving
  | .giveUp handler, ctrl => handler ∉ ctrl.run.pending
  | _, _ => True

instance (taken : ControllerStep) (ctrl : Controller) : Decidable (Timely taken ctrl) := by
  unfold Timely
  split <;> infer_instance

/-- The loop has no message for a handler that waits to leave. -/
def NoneLeft (ctrl : Controller) : Prop :=
  ∀ respCh ∈ ctrl.run.pending, ctrl.handlers respCh ≠ .leaving

theorem registered_of_tickSends {connProxies : FMap ProxyID Nat}
    {proxyReservations : List (ProxyID × List V1Reservation)} {walk : List ProxyID} {respCh : Nat}
    (member : respCh ∈ (tickSends connProxies proxyReservations walk).map Prod.fst) :
    ∃ proxyID, connProxies.lookup proxyID = some respCh := by
  obtain ⟨send, sent, rfl⟩ := List.mem_map.mp member
  rw [tickSends, ← List.filterMap_append, List.mem_filterMap] at sent
  obtain ⟨entry, _, found⟩ := sent
  obtain ⟨respCh, known, rfl⟩ := Option.map_eq_some_iff.mp found
  exact ⟨entry.1, known⟩

theorem NoneLeft.steps (noneLeft : NoneLeft ctrl) (coherent : Coherent proxyOf ctrl)
    (timely : Timely taken ctrl) (steps : Steps proxyOf ctrl taken after) :
    NoneLeft after := by
  intro respCh pending
  cases steps with
  | joinRefused handler other selecting joining known =>
      obtain rfl := List.mem_singleton.mp pending
      simp
  | joinAccepted handler selecting joining unknown =>
      obtain rfl := List.mem_singleton.mp pending
      simp
  | refusalReceived => exact absurd pending List.not_mem_nil
  | acceptanceReceived => exact absurd pending List.not_mem_nil
  | tickFailed => exact noneLeft respCh pending
  | ticked proxyReservations walk selecting walks =>
      rw [RunState.pending_toSend] at pending
      obtain ⟨proxyID, known⟩ := registered_of_tickSends pending
      have member : proxyID ∈ ctrl.connProxies.keys := by
        rw [mem_keys_iff, known]
        rfl
      exact timely proxyID member respCh known
  | delivered sentCh resp sends sending received receives =>
      rw [RunState.pending_toSend] at pending
      have before := noneLeft respCh (by
        rw [sending]
        exact List.mem_cons_of_mem sentCh pending)
      rcases receive_cases receives with ⟨receiving, rfl⟩ | ⟨_, rfl⟩
      · rw [setHandler_handlers]
        split
        case isTrue => simp
        case isFalse => exact before
      · exact before
  | wentOn handler resp forwarding =>
      rw [setHandler_handlers]
      split
      case isTrue => simp
      case isFalse => exact noneLeft respCh pending
  | gaveUp handler resp forwarding =>
      rw [setHandler_handlers]
      split
      case isTrue same =>
        subst same
        exact absurd pending timely
      case isFalse => exact noneLeft respCh pending
  | leftUnknown handler selecting leaving unknown =>
      rw [Controller.setHandler, selecting] at pending
      exact absurd pending List.not_mem_nil
  | leaveTaken handler known selecting leaving registered =>
      obtain rfl := List.mem_singleton.mp pending
      have own := coherent.registered handler (by simp [Listens, leaving])
      obtain rfl := Option.some.inj (registered.symm.trans own)
      simp
  | leaveAnswered => exact absurd pending List.not_mem_nil
  | closedWhileReceiving handler closed receiving =>
      exact absurd (by simp [Listens, receiving]) (coherent.opened handler closed).1
  | drained handler closed draining =>
      rw [setHandler_handlers]
      split
      case isTrue => simp
      case isFalse => exact noneLeft respCh pending
  | stopped => exact absurd pending List.not_mem_nil

theorem Reaches.coherent {allowed : ControllerStep → Controller → Prop}
    (reached : Reaches proxyOf allowed ctrl) : Coherent proxyOf ctrl := by
  induction reached with
  | start => exact coherent_start
  | step taken _ _ stepped coherent => exact coherent.steps (steps_of_step stepped)

theorem Reaches.noneLeft (reached : Reaches proxyOf Timely ctrl) : NoneLeft ctrl := by
  induction reached with
  | start =>
      intro respCh pending
      exact absurd pending List.not_mem_nil
  | step taken reached timely stepped noneLeft =>
      exact noneLeft.steps reached.coherent timely (steps_of_step stepped)

/-- As long as no handler gives up while the loop has a message for it and no tick comes
while a registered handler waits to leave, the loop and a leaving handler never wait for
each other. -/
theorem not_deadlocked_of_timely (proxyOf : Nat → ProxyID) (ctrl : Controller)
    (reached : Reaches proxyOf Timely ctrl) : ¬ctrl.Deadlocked := by
  rintro ⟨respCh, blocked, leaving⟩
  exact reached.noneLeft respCh (List.mem_of_mem_head? blocked) leaving

/-- A proxy joins, gets the message of a tick, leaves and is gone. -/
theorem not_deadlocked_joinAndLeave :
    ∃ ctrl, Reaches (fun _ => [1]) Timely ctrl ∧ ctrl.handlers 0 = .finished ∧
      ¬ctrl.Deadlocked := by
  have ends :
      (play (fun _ => [1]) Timely
        [.requestJoin 0, .answerJoin, .tick [] [[1]], .deliver, .giveUp 0, .requestLeave 0,
          .answerLeave, .seeClosed 0] {}).map (fun ctrl => ctrl.handlers 0) = some .finished := by
    decide +kernel
  obtain ⟨ctrl, played, finished⟩ := Option.map_eq_some_iff.mp ends
  have reached := Reaches.start.play played
  exact ⟨ctrl, reached, finished, not_deadlocked_of_timely _ ctrl reached⟩

/-- Between its last message and its request to leave a proxy gets a message of the next
tick: the loop waits for the handler, and the handler for the loop. -/
theorem deadlocked_leavingBeforeTick :
    ∃ ctrl, Reaches (fun _ => [1]) (fun _ _ => True) ctrl ∧ ctrl.Deadlocked := by
  have ends :
      (play (fun _ => [1]) (fun _ _ => True)
        [.requestJoin 0, .answerJoin, .tick [] [[1]], .deliver, .giveUp 0, .tick [] [[1]]] {}).map
          (fun ctrl => (ctrl.run.pending.head?, ctrl.handlers 0)) = some (some 0, .leaving) := by
    decide +kernel
  obtain ⟨ctrl, played, facts⟩ := Option.map_eq_some_iff.mp ends
  obtain ⟨blocked, leaving⟩ := Prod.mk.inj facts
  exact ⟨ctrl, Reaches.start.play played, 0, blocked, leaving⟩

/-- The receiver that the loop is blocked on waits to leave. -/
theorem Deadlocked.leaving {handler : Nat} (deadlocked : ctrl.Deadlocked)
    (head : ctrl.run.pending.head? = some handler) : ctrl.handlers handler = .leaving := by
  obtain ⟨respCh, blocked, leaving⟩ := deadlocked
  obtain rfl := Option.some.inj (blocked.symm.trans head)
  exact leaving

theorem Deadlocked.not_received {handler : Nat} {resp : ProxyResp} {received : Controller}
    (deadlocked : ctrl.Deadlocked) (head : ctrl.run.pending.head? = some handler) :
    ctrl.receive handler resp ≠ some received := by
  intro receives
  rcases receive_cases receives with ⟨state, _⟩ | ⟨state, _⟩ <;>
    simp [deadlocked.leaving head] at state

end Coherence

end Controller

end Coolbeans
