import Coolbeans.ClusterNode

/-!
# The reservations controller

The loop `Run` of the reservations controller and the handlers of
`StreamReserveUpdates` that it talks to, one for each proxy that asks for updates.
Each handler makes its own response channel, so the channel of a handler is named by
the handler.  All channels are unbuffered: a send and its receive are one step of the
two parties.  Which step comes next is open, and so is the order in which `Run` walks
its maps.

A handler looks at the context of its stream only after it has received a message: it
goes on, or gives up because the context is cancelled or the stream has an error.
-/

namespace Coolbeans

open FiniteMap

inductive ProxyRespType where
  | join
  | leave
  | reservation
  deriving DecidableEq, Repr

/-- A message on a response channel.  The only error is `ErrProxyExists`. -/
structure ProxyResp where
  respType : ProxyRespType
  reservations : List V1Reservation := []
  errProxyExists : Bool := false
  deriving DecidableEq, Repr

/-- Where the loop `Run` is: at its select, or in a send. -/
inductive RunState where
  | selecting
  | sending (sends : List (Nat × ProxyResp))
  | answeringJoin (handler : Nat) (resp : ProxyResp)
  | answeringLeave (proxyID : ProxyID) (respCh : Nat)
  | returned
  deriving DecidableEq, Repr

/-- Where a handler is. -/
inductive HandlerState where
  /-- in `Register`, sending its request -/
  | joining
  /-- in `Register`, waiting for the answer -/
  | awaitingJoin
  /-- `Register` returned an error -/
  | rejected
  /-- waiting for the next message -/
  | receiving
  /-- forwarding a message to its stream -/
  | forwarding (resp : ProxyResp)
  /-- in `UnRegister`, sending its request -/
  | leaving
  /-- in `UnRegister`, draining its channel -/
  | draining
  | finished
  deriving DecidableEq, Repr

/-- The controller and the handlers. -/
structure Controller where
  connProxies : FMap ProxyID Nat := ∅
  run : RunState := .selecting
  handlers : Nat → HandlerState := fun _ => .joining
  closed : Nat → Bool := fun _ => false

/-- One step of the loop, of a handler, or of both. -/
inductive ControllerStep where
  /-- a handler's request to join is received -/
  | requestJoin (handler : Nat)
  /-- the answer to a request to join is received -/
  | answerJoin
  /-- the state machine's tick fails -/
  | tickFails
  /-- the state machine's tick returns; `walk` is the order of the connected proxies -/
  | tick (proxyReservations : List (ProxyID × List V1Reservation)) (walk : List ProxyID)
  /-- the next message of a tick is received -/
  | deliver
  /-- a handler has forwarded its message -/
  | goOn (handler : Nat)
  /-- a handler's stream fails, or its context is cancelled -/
  | giveUp (handler : Nat)
  /-- a handler's request to leave is received -/
  | requestLeave (handler : Nat)
  /-- the answer to a request to leave is received -/
  | answerLeave
  /-- a handler sees that its channel is closed -/
  | seeClosed (handler : Nat)
  /-- the controller is stopped -/
  | stop
  deriving DecidableEq

namespace RunState

/-- The channels that the loop still has to send on, the one it is blocked on first. -/
def pending : RunState → List Nat
  | .sending sends => sends.map Prod.fst
  | .answeringJoin handler _ => [handler]
  | .answeringLeave _ respCh => [respCh]
  | .selecting | .returned => []

/-- The loop with messages to send; without any it is back at its select. -/
def toSend : List (Nat × ProxyResp) → RunState
  | [] => .selecting
  | send :: sends => .sending (send :: sends)

@[simp]
theorem pending_toSend (sends : List (Nat × ProxyResp)) :
    (toSend sends).pending = sends.map Prod.fst := by
  cases sends <;> rfl

theorem toSend_ne_answeringJoin (sends : List (Nat × ProxyResp)) (handler : Nat)
    (resp : ProxyResp) : toSend sends ≠ .answeringJoin handler resp := by
  cases sends <;> simp [toSend]

theorem toSend_ne_answeringLeave (sends : List (Nat × ProxyResp)) (proxyID : ProxyID)
    (respCh : Nat) : toSend sends ≠ .answeringLeave proxyID respCh := by
  cases sends <;> simp [toSend]

end RunState

namespace Controller

/-- The messages of a tick: the reservations of each connected proxy that has some, and
an empty message to each other one. -/
def tickSends (connProxies : FMap ProxyID Nat)
    (proxyReservations : List (ProxyID × List V1Reservation)) (walk : List ProxyID) :
    List (Nat × ProxyResp) :=
  let send (entry : ProxyID × List V1Reservation) : Option (Nat × ProxyResp) :=
    (connProxies.lookup entry.1).map fun respCh =>
      (respCh, { respType := .reservation, reservations := entry.2 })
  let responded := proxyReservations.map Prod.fst
  proxyReservations.filterMap send ++
    ((walk.filter fun proxyID => proxyID ∉ responded).map fun proxyID => (proxyID, [])).filterMap
      send

def setHandler (handler : Nat) (state : HandlerState) (ctrl : Controller) : Controller :=
  { ctrl with handlers := Function.update ctrl.handlers handler state }

/-- Close a channel.  Go panics when it is closed already. -/
def closeCh (respCh : Nat) (ctrl : Controller) : Controller :=
  { ctrl with closed := Function.update ctrl.closed respCh true }

/-- A handler receives a message: in its loop it forwards it, while draining it drops it. -/
def receive (handler : Nat) (resp : ProxyResp) (ctrl : Controller) : Option Controller :=
  match ctrl.handlers handler with
  | .receiving => some (ctrl.setHandler handler (.forwarding resp))
  | .draining => some ctrl
  | _ => none

/-- A step, where the parties are ready for it; `proxyOf` is the proxy of a handler. -/
def step (proxyOf : Nat → ProxyID) : ControllerStep → Controller → Option Controller
  | .requestJoin handler, ctrl =>
      if ctrl.run = .selecting ∧ ctrl.handlers handler = .joining then
        let ctrl := ctrl.setHandler handler .awaitingJoin
        match ctrl.connProxies.lookup (proxyOf handler) with
        | some _ =>
            some { ctrl with
              run := .answeringJoin handler { respType := .join, errProxyExists := true } }
        | none =>
            some { ctrl with
              connProxies := ctrl.connProxies.insert (proxyOf handler) handler
              run := .answeringJoin handler { respType := .join } }
      else none
  | .answerJoin, ctrl =>
      match ctrl.run with
      | .answeringJoin handler resp =>
          if ctrl.handlers handler = .awaitingJoin then
            let ctrl := { ctrl with run := .selecting }
            if resp.errProxyExists then
              some ((ctrl.setHandler handler .rejected).closeCh handler)
            else some (ctrl.setHandler handler .receiving)
          else none
      | _ => none
  | .tickFails, ctrl => if ctrl.run = .selecting then some ctrl else none
  | .tick proxyReservations walk, ctrl =>
      if ctrl.run = .selecting ∧ (proxyReservations.map Prod.fst).Nodup ∧
          walk.Perm ctrl.connProxies.keys then
        some { ctrl with run := .toSend (tickSends ctrl.connProxies proxyReservations walk) }
      else none
  | .deliver, ctrl =>
      match ctrl.run with
      | .sending ((respCh, resp) :: sends) =>
          (ctrl.receive respCh resp).map fun ctrl => { ctrl with run := .toSend sends }
      | _ => none
  | .goOn handler, ctrl =>
      match ctrl.handlers handler with
      | .forwarding resp =>
          if resp.respType = .reservation ∧ resp.errProxyExists = false then
            some (ctrl.setHandler handler .receiving)
          else none
      | _ => none
  | .giveUp handler, ctrl =>
      match ctrl.handlers handler with
      | .forwarding _ => some (ctrl.setHandler handler .leaving)
      | _ => none
  | .requestLeave handler, ctrl =>
      if ctrl.run = .selecting ∧ ctrl.handlers handler = .leaving then
        let ctrl := ctrl.setHandler handler .draining
        match ctrl.connProxies.lookup (proxyOf handler) with
        | none => some ctrl
        | some respCh => some { ctrl with run := .answeringLeave (proxyOf handler) respCh }
      else none
  | .answerLeave, ctrl =>
      match ctrl.run with
      | .answeringLeave proxyID respCh =>
          (ctrl.receive respCh { respType := .leave }).map fun ctrl =>
            { ctrl.closeCh respCh with
              run := .selecting
              connProxies := ctrl.connProxies.erase proxyID }
      | _ => none
  | .seeClosed handler, ctrl =>
      if ctrl.closed handler then
        match ctrl.handlers handler with
        | .receiving => some (ctrl.setHandler handler .leaving)
        | .draining => some (ctrl.setHandler handler .finished)
        | _ => none
      else none
  | .stop, ctrl => if ctrl.run = .selecting then some { ctrl with run := .returned } else none

/-- The states that the controller and its handlers reach by steps that meet a condition. -/
inductive Reaches (proxyOf : Nat → ProxyID) (allowed : ControllerStep → Controller → Prop) :
    Controller → Prop
  | start : Reaches proxyOf allowed {}
  | step {before after : Controller} (taken : ControllerStep)
      (reached : Reaches proxyOf allowed before) (meets : allowed taken before)
      (steps : before.step proxyOf taken = some after) : Reaches proxyOf allowed after

/-- Take steps that meet a condition, one after the other. -/
def play (proxyOf : Nat → ProxyID) (allowed : ControllerStep → Controller → Prop)
    [∀ taken ctrl, Decidable (allowed taken ctrl)] :
    List ControllerStep → Controller → Option Controller
  | [], ctrl => some ctrl
  | taken :: rest, ctrl =>
      if allowed taken ctrl then (ctrl.step proxyOf taken).bind (play proxyOf allowed rest)
      else none

theorem Reaches.play {proxyOf : Nat → ProxyID} {allowed : ControllerStep → Controller → Prop}
    [∀ taken ctrl, Decidable (allowed taken ctrl)] {taken : List ControllerStep}
    {before after : Controller} (reached : Reaches proxyOf allowed before)
    (played : before.play proxyOf allowed taken = some after) :
    Reaches proxyOf allowed after := by
  induction taken generalizing before with
  | nil =>
      obtain rfl := Option.some.inj played
      exact reached
  | cons first rest induction =>
      rw [Controller.play] at played
      split at played
      case isFalse => cases played
      case isTrue meets =>
        obtain ⟨middle, stepped, played⟩ := Option.bind_eq_some_iff.mp played
        exact induction (reached.step first meets stepped) played

/-! ## What a step can do -/

/-- The steps, each with what it asks of the parties. -/
inductive Steps (proxyOf : Nat → ProxyID) (ctrl : Controller) :
    ControllerStep → Controller → Prop
  | joinRefused (handler other : Nat) (selecting : ctrl.run = .selecting)
      (joining : ctrl.handlers handler = .joining)
      (known : ctrl.connProxies.lookup (proxyOf handler) = some other) :
      Steps proxyOf ctrl (.requestJoin handler)
        { ctrl.setHandler handler .awaitingJoin with
          run := .answeringJoin handler { respType := .join, errProxyExists := true } }
  | joinAccepted (handler : Nat) (selecting : ctrl.run = .selecting)
      (joining : ctrl.handlers handler = .joining)
      (unknown : ctrl.connProxies.lookup (proxyOf handler) = none) :
      Steps proxyOf ctrl (.requestJoin handler)
        { ctrl.setHandler handler .awaitingJoin with
          connProxies := ctrl.connProxies.insert (proxyOf handler) handler
          run := .answeringJoin handler { respType := .join } }
  | refusalReceived (handler : Nat) (resp : ProxyResp)
      (answering : ctrl.run = .answeringJoin handler resp) (refused : resp.errProxyExists = true)
      (awaiting : ctrl.handlers handler = .awaitingJoin) :
      Steps proxyOf ctrl .answerJoin
        ((setHandler handler .rejected { ctrl with run := .selecting }).closeCh handler)
  | acceptanceReceived (handler : Nat) (resp : ProxyResp)
      (answering : ctrl.run = .answeringJoin handler resp) (accepted : resp.errProxyExists = false)
      (awaiting : ctrl.handlers handler = .awaitingJoin) :
      Steps proxyOf ctrl .answerJoin
        (setHandler handler .receiving { ctrl with run := .selecting })
  | tickFailed (selecting : ctrl.run = .selecting) : Steps proxyOf ctrl .tickFails ctrl
  | ticked (proxyReservations : List (ProxyID × List V1Reservation)) (walk : List ProxyID)
      (selecting : ctrl.run = .selecting) (walks : walk.Perm ctrl.connProxies.keys) :
      Steps proxyOf ctrl (.tick proxyReservations walk)
        { ctrl with run := .toSend (tickSends ctrl.connProxies proxyReservations walk) }
  | delivered (respCh : Nat) (resp : ProxyResp) (sends : List (Nat × ProxyResp))
      (sending : ctrl.run = .sending ((respCh, resp) :: sends)) (received : Controller)
      (receives : ctrl.receive respCh resp = some received) :
      Steps proxyOf ctrl .deliver { received with run := .toSend sends }
  | wentOn (handler : Nat) (resp : ProxyResp)
      (forwarding : ctrl.handlers handler = .forwarding resp) :
      Steps proxyOf ctrl (.goOn handler) (ctrl.setHandler handler .receiving)
  | gaveUp (handler : Nat) (resp : ProxyResp)
      (forwarding : ctrl.handlers handler = .forwarding resp) :
      Steps proxyOf ctrl (.giveUp handler) (ctrl.setHandler handler .leaving)
  | leftUnknown (handler : Nat) (selecting : ctrl.run = .selecting)
      (leaving : ctrl.handlers handler = .leaving)
      (unknown : ctrl.connProxies.lookup (proxyOf handler) = none) :
      Steps proxyOf ctrl (.requestLeave handler) (ctrl.setHandler handler .draining)
  | leaveTaken (handler respCh : Nat) (selecting : ctrl.run = .selecting)
      (leaving : ctrl.handlers handler = .leaving)
      (known : ctrl.connProxies.lookup (proxyOf handler) = some respCh) :
      Steps proxyOf ctrl (.requestLeave handler)
        { ctrl.setHandler handler .draining with
          run := .answeringLeave (proxyOf handler) respCh }
  | leaveAnswered (proxyID : ProxyID) (respCh : Nat)
      (answering : ctrl.run = .answeringLeave proxyID respCh) (received : Controller)
      (receives : ctrl.receive respCh { respType := .leave } = some received) :
      Steps proxyOf ctrl .answerLeave
        { received.closeCh respCh with
          run := .selecting
          connProxies := received.connProxies.erase proxyID }
  | closedWhileReceiving (handler : Nat) (closed : ctrl.closed handler = true)
      (receiving : ctrl.handlers handler = .receiving) :
      Steps proxyOf ctrl (.seeClosed handler) (ctrl.setHandler handler .leaving)
  | drained (handler : Nat) (closed : ctrl.closed handler = true)
      (draining : ctrl.handlers handler = .draining) :
      Steps proxyOf ctrl (.seeClosed handler) (ctrl.setHandler handler .finished)
  | stopped (selecting : ctrl.run = .selecting) :
      Steps proxyOf ctrl .stop { ctrl with run := .returned }

section Inversion

variable {proxyOf : Nat → ProxyID} {ctrl after : Controller} {taken : ControllerStep}

theorem steps_of_step (stepped : ctrl.step proxyOf taken = some after) :
    Steps proxyOf ctrl taken after := by
  cases taken with
  | requestJoin handler =>
      simp only [step] at stepped
      split at stepped
      case isFalse => cases stepped
      case isTrue ready =>
        split at stepped
        case h_1 other known =>
          obtain rfl := Option.some.inj stepped
          exact .joinRefused handler other ready.1 ready.2 known
        case h_2 unknown =>
          obtain rfl := Option.some.inj stepped
          exact .joinAccepted handler ready.1 ready.2 unknown
  | answerJoin =>
      simp only [step] at stepped
      split at stepped
      case h_2 => cases stepped
      case h_1 handler resp answering =>
        split at stepped
        case isFalse => cases stepped
        case isTrue awaiting =>
          split at stepped
          case isTrue refused =>
            obtain rfl := Option.some.inj stepped
            exact .refusalReceived handler resp answering refused awaiting
          case isFalse accepted =>
            obtain rfl := Option.some.inj stepped
            exact .acceptanceReceived handler resp answering (by simpa using accepted) awaiting
  | tickFails =>
      simp only [step] at stepped
      split at stepped
      case isFalse => cases stepped
      case isTrue selecting =>
        obtain rfl := Option.some.inj stepped
        exact .tickFailed selecting
  | tick proxyReservations walk =>
      simp only [step] at stepped
      split at stepped
      case isFalse => cases stepped
      case isTrue ready =>
        obtain rfl := Option.some.inj stepped
        exact .ticked proxyReservations walk ready.1 ready.2.2
  | deliver =>
      simp only [step] at stepped
      split at stepped
      case h_2 => cases stepped
      case h_1 respCh resp sends sending =>
        rw [Option.map_eq_some_iff] at stepped
        obtain ⟨received, receives, rfl⟩ := stepped
        exact .delivered respCh resp sends sending received receives
  | goOn handler =>
      simp only [step] at stepped
      split at stepped
      case h_2 => cases stepped
      case h_1 resp forwarding =>
        split at stepped
        case isFalse => cases stepped
        case isTrue =>
          obtain rfl := Option.some.inj stepped
          exact .wentOn handler resp forwarding
  | giveUp handler =>
      simp only [step] at stepped
      split at stepped
      case h_2 => cases stepped
      case h_1 resp forwarding =>
        obtain rfl := Option.some.inj stepped
        exact .gaveUp handler resp forwarding
  | requestLeave handler =>
      simp only [step] at stepped
      split at stepped
      case isFalse => cases stepped
      case isTrue ready =>
        split at stepped
        case h_1 unknown =>
          obtain rfl := Option.some.inj stepped
          exact .leftUnknown handler ready.1 ready.2 unknown
        case h_2 respCh known =>
          obtain rfl := Option.some.inj stepped
          exact .leaveTaken handler respCh ready.1 ready.2 known
  | answerLeave =>
      simp only [step] at stepped
      split at stepped
      case h_2 => cases stepped
      case h_1 proxyID respCh answering =>
        rw [Option.map_eq_some_iff] at stepped
        obtain ⟨received, receives, rfl⟩ := stepped
        exact .leaveAnswered proxyID respCh answering received receives
  | seeClosed handler =>
      simp only [step] at stepped
      split at stepped
      case isFalse => cases stepped
      case isTrue closed =>
        split at stepped
        case h_1 receiving =>
          obtain rfl := Option.some.inj stepped
          exact .closedWhileReceiving handler closed receiving
        case h_2 draining =>
          obtain rfl := Option.some.inj stepped
          exact .drained handler closed draining
        case h_3 => cases stepped
  | stop =>
      simp only [step] at stepped
      split at stepped
      case isFalse => cases stepped
      case isTrue selecting =>
        obtain rfl := Option.some.inj stepped
        exact .stopped selecting

theorem receive_cases {handler : Nat} {resp : ProxyResp} {received : Controller}
    (receives : ctrl.receive handler resp = some received) :
    (ctrl.handlers handler = .receiving ∧
        received = ctrl.setHandler handler (.forwarding resp)) ∨
      (ctrl.handlers handler = .draining ∧ received = ctrl) := by
  unfold receive at receives
  split at receives
  case h_1 receiving => exact .inl ⟨receiving, (Option.some.inj receives).symm⟩
  case h_2 draining => exact .inr ⟨draining, (Option.some.inj receives).symm⟩
  case h_3 => cases receives

end Inversion

end Controller

end Coolbeans
