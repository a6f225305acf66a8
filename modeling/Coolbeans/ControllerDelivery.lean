import Coolbeans.ControllerChannels
import Coolbeans.NodeAnswers

/-!
# What the reservations controller delivers

A tick makes one message for each connected proxy, with the reservations of its own clients.
The messages are handed over one by one, before anything else, as long as no handler waits to
leave while the loop has a message for it.
-/

namespace Coolbeans

open FiniteMap

namespace Controller

/-! ## Messages -/

/-- The message that a step hands over to its receiver. -/
def handsOver (ctrl : Controller) : ControllerStep → List (Nat × ProxyResp)
  | .answerJoin =>
      match ctrl.run with
      | .answeringJoin handler resp => [(handler, resp)]
      | _ => []
  | .deliver => ctrl.run.sends.take 1
  | .answerLeave =>
      match ctrl.run with
      | .answeringLeave _ respCh => [(respCh, { respType := .leave })]
      | _ => []
  | _ => []

/-- A run from a state on, with the messages that it has handed over. -/
inductive Runs (proxyOf : Nat → ProxyID) (allowed : ControllerStep → Controller → Prop)
    (start : Controller) : List (Nat × ProxyResp) → Controller → Prop
  | nil : Runs proxyOf allowed start [] start
  | step {log : List (Nat × ProxyResp)} {before after : Controller} (taken : ControllerStep)
      (runs : Runs proxyOf allowed start log before) (meets : allowed taken before)
      (steps : before.step proxyOf taken = some after) :
      Runs proxyOf allowed start (log ++ before.handsOver taken) after

/-- The reservations of a tick, as its response holds them: the entries of each proxy, in
some order of the proxies. -/
def Lists (proxyReservations : List (ProxyID × List V1Reservation))
    (entries : List V1Reservation) : Prop :=
  ∀ proxyID own, (proxyID, own) ∈ proxyReservations ↔
    (entries.foldl addToProxy ∅).lookup proxyID = some own

/-- A successful tick sends each connected proxy one message with the entries of its clients,
and nothing else: whatever has happened since, these messages are the first ones that are
handed over. -/
def DeliversTicks (proxyOf : Nat → ProxyID) (allowed : ControllerStep → Controller → Prop)
    (ctrl : Controller) : Prop :=
  ∀ entries proxyReservations walk middle, Lists proxyReservations entries →
    allowed (.tick proxyReservations walk) ctrl →
    ctrl.step proxyOf (.tick proxyReservations walk) = some middle →
    ∃ sends : List (Nat × ProxyResp),
      (∀ proxyID respCh, ctrl.connProxies.lookup proxyID = some respCh →
        sends.filter (fun send => send.1 = respCh) =
          [(respCh,
            { respType := .reservation
              reservations := entries.filter fun v1r => v1r.proxyId = proxyID })]) ∧
      (∀ send ∈ sends, ∃ proxyID, ctrl.connProxies.lookup proxyID = some send.1) ∧
      ∀ log now, Runs proxyOf allowed middle log now →
        ∃ rest after, Runs proxyOf allowed now rest after ∧ sends <+: log ++ rest

section Delivery

variable {proxyOf : Nat → ProxyID} {ctrl after : Controller} {taken : ControllerStep}
  {allowed : ControllerStep → Controller → Prop}

theorem Runs.reaches {start now : Controller} {log : List (Nat × ProxyResp)}
    (runs : Runs proxyOf allowed start log now) (reached : Reaches proxyOf allowed start) :
    Reaches proxyOf allowed now := by
  induction runs with
  | nil => exact reached
  | step taken _ meets stepped reaches => exact reaches.step taken meets stepped

/-- The entries of a proxy that a listing has, or has not. -/
theorem entries_of_lists {proxyReservations : List (ProxyID × List V1Reservation)}
    {entries : List V1Reservation} (lists : Lists proxyReservations entries) (proxyID : ProxyID) :
    (∀ own, (proxyID, own) ∈ proxyReservations →
        own = entries.filter fun v1r => v1r.proxyId = proxyID) ∧
      (proxyID ∉ proxyReservations.map Prod.fst →
        entries.filter (fun v1r => v1r.proxyId = proxyID) = []) := by
  have grouped := answersFor_foldl proxyID entries ∅
  have none : ProxySystem.answersFor proxyID (∅ : FMap ProxyID (List V1Reservation)) = [] := by
    simp [ProxySystem.answersFor]
  rw [none, List.nil_append, ProxySystem.answersFor] at grouped
  constructor
  · intro own member
    rw [(lists proxyID own).mp member] at grouped
    exact grouped
  · intro absent
    cases found : (entries.foldl addToProxy ∅).lookup proxyID with
    | none =>
        rw [found] at grouped
        exact grouped.symm
    | some own =>
        have member := (lists proxyID own).mpr found
        exact absurd (List.mem_map_of_mem member) absent

/-- The message of a tick to the proxy of an entry. -/
def message (connProxies : FMap ProxyID Nat) (entry : ProxyID × List V1Reservation) :
    Option (Nat × ProxyResp) :=
  (connProxies.lookup entry.1).map fun respCh =>
    (respCh, { respType := .reservation, reservations := entry.2 })

theorem message_eq_some_iff {connProxies : FMap ProxyID Nat}
    {entry : ProxyID × List V1Reservation} {send : Nat × ProxyResp} :
    message connProxies entry = some send ↔
      connProxies.lookup entry.1 = some send.1 ∧
        send.2 = { respType := .reservation, reservations := entry.2 } := by
  rw [message, Option.map_eq_some_iff]
  constructor
  · rintro ⟨respCh, found, rfl⟩
    exact ⟨found, rfl⟩
  · rintro ⟨found, isMessage⟩
    exact ⟨send.1, found, by rw [← isMessage]⟩

section OneReceiver

variable {connProxies : FMap ProxyID Nat} {proxyID : ProxyID} {respCh : Nat}
  {messages : List (ProxyID × List V1Reservation)}

theorem filter_message_nil (absent : proxyID ∉ messages.map Prod.fst)
    (injective : ∀ other, connProxies.lookup other = some respCh → other = proxyID) :
    (messages.filterMap (message connProxies)).filter (fun send => send.1 = respCh) = [] := by
  rw [List.filter_eq_nil_iff]
  intro send member toReceiver
  obtain ⟨entry, isEntry, isMessage⟩ := List.mem_filterMap.mp member
  have found := (message_eq_some_iff.mp isMessage).1
  rw [of_decide_eq_true toReceiver] at found
  rw [← injective entry.1 found] at absent
  exact absent (List.mem_map_of_mem isEntry)

/-- Of entries with different proxies, one receiver gets the message of one. -/
theorem filter_message_eq {own : List V1Reservation} (keys : (messages.map Prod.fst).Nodup)
    (member : (proxyID, own) ∈ messages) (registered : connProxies.lookup proxyID = some respCh)
    (injective : ∀ other, connProxies.lookup other = some respCh → other = proxyID) :
    (messages.filterMap (message connProxies)).filter (fun send => send.1 = respCh) =
      [(respCh, { respType := .reservation, reservations := own })] := by
  induction messages with
  | nil => cases member
  | cons entry messages induction =>
      obtain ⟨absent, keys⟩ := List.nodup_cons.mp keys
      rcases List.mem_cons.mp member with rfl | later
      · have isMessage : message connProxies (proxyID, own) =
            some (respCh, { respType := .reservation, reservations := own }) :=
          message_eq_some_iff.mpr ⟨registered, rfl⟩
        rw [List.filterMap_cons_some isMessage, List.filter_cons_of_pos (by simp),
          filter_message_nil absent injective]
      · have different : entry.1 ≠ proxyID := by
          intro same
          apply absent
          rw [same]
          exact List.mem_map_of_mem later
        cases isMessage : message connProxies entry with
        | none => rw [List.filterMap_cons_none isMessage, induction keys later]
        | some send =>
            have toOther : send.1 ≠ respCh := by
              intro same
              have found := (message_eq_some_iff.mp isMessage).1
              rw [same] at found
              exact different (injective entry.1 found)
            rw [List.filterMap_cons_some isMessage,
              List.filter_cons_of_neg (by simpa using toOther), induction keys later]

end OneReceiver

/-- The messages of a tick, each proxy with its entries. -/
theorem tickSends_eq (connProxies : FMap ProxyID Nat)
    (proxyReservations : List (ProxyID × List V1Reservation)) (walk : List ProxyID) :
    tickSends connProxies proxyReservations walk =
      (proxyReservations ++ (walk.filter fun proxyID =>
        proxyID ∉ proxyReservations.map Prod.fst).map fun proxyID => (proxyID, [])).filterMap
          (message connProxies) := by
  rw [List.filterMap_append]
  rfl

theorem tickSends_filter {connProxies : FMap ProxyID Nat}
    {proxyReservations : List (ProxyID × List V1Reservation)} {walk : List ProxyID}
    {entries : List V1Reservation} (lists : Lists proxyReservations entries)
    (distinct : (proxyReservations.map Prod.fst).Nodup) (walks : walk.Perm connProxies.keys)
    {proxyID : ProxyID} {respCh : Nat} (registered : connProxies.lookup proxyID = some respCh)
    (injective : ∀ other, connProxies.lookup other = some respCh → other = proxyID) :
    (tickSends connProxies proxyReservations walk).filter (fun send => send.1 = respCh) =
      [(respCh,
        { respType := .reservation
          reservations := entries.filter fun v1r => v1r.proxyId = proxyID })] := by
  have walkNodup : walk.Nodup := walks.nodup_iff.mpr connProxies.keys_nodup
  rw [tickSends_eq]
  apply filter_message_eq _ _ registered injective
  · rw [List.map_append, List.map_map, List.nodup_append]
    refine ⟨distinct, ?_, ?_⟩
    · exact (walkNodup.filter _).map Function.injective_id
    · rintro listed isListed other isOther rfl
      obtain ⟨walked, isWalked, rfl⟩ := List.mem_map.mp isOther
      exact of_decide_eq_true (List.mem_filter.mp isWalked).2 isListed
  · obtain ⟨whenListed, whenAbsent⟩ := entries_of_lists lists proxyID
    by_cases listed : proxyID ∈ proxyReservations.map Prod.fst
    · obtain ⟨⟨listedID, own⟩, member, rfl⟩ := List.mem_map.mp listed
      rw [← whenListed own member]
      exact List.mem_append_left _ member
    · rw [whenAbsent listed]
      have walked : proxyID ∈ walk := by
        rw [walks.mem_iff, mem_keys_iff, registered]
        rfl
      apply List.mem_append_right
      exact List.mem_map_of_mem (List.mem_filter.mpr ⟨walked, decide_eq_true listed⟩)

/-! ### Handing over -/

/-- While the loop is in a tick it hands over the next message, or it is a handler that moves. -/
theorem steps_sending {send : Nat × ProxyResp} {sends : List (Nat × ProxyResp)}
    (sending : ctrl.run = .sending (send :: sends)) (steps : Steps proxyOf ctrl taken after) :
    ctrl.handsOver taken = [send] ∧ after.run = .toSend sends ∨
      ctrl.handsOver taken = [] ∧ after.run = .sending (send :: sends) := by
  cases steps with
  | delivered respCh resp rest isRun received receives =>
      cases sending.symm.trans isRun
      exact Or.inl ⟨by simp [handsOver, sending, RunState.sends], rfl⟩
  | wentOn | gaveUp | closedWhileReceiving | drained => exact Or.inr ⟨rfl, sending⟩
  | joinRefused _ _ isRun | joinAccepted _ isRun | tickFailed isRun | ticked _ _ isRun
  | leftUnknown _ isRun | leaveTaken _ _ isRun | stopped isRun => simp [sending] at isRun
  | refusalReceived _ _ isRun | acceptanceReceived _ _ isRun | leaveAnswered _ _ isRun =>
      simp [sending] at isRun

/-- The messages of a tick are handed over in their order, before anything else. -/
theorem Runs.sends {start now : Controller} {log sends : List (Nat × ProxyResp)}
    (runs : Runs proxyOf allowed start log now) (sending : start.run = .toSend sends) :
    (∃ rest, now.run = .toSend rest ∧ log ++ rest = sends) ∨ sends <+: log := by
  induction runs with
  | nil => exact Or.inl ⟨sends, sending, rfl⟩
  | step taken _ _ stepped induction =>
      rcases induction with ⟨rest, isRun, rfl⟩ | done
      · cases rest with
        | nil =>
            right
            rw [List.append_nil]
            exact List.prefix_append _ _
        | cons send rest =>
            left
            rcases steps_sending isRun (steps_of_step stepped) with ⟨handed, run⟩ | ⟨handed, run⟩
            · exact ⟨rest, run, by rw [handed, List.append_assoc]; rfl⟩
            · exact ⟨send :: rest, run, by rw [handed, List.append_nil]⟩
      · exact Or.inr (done.trans (List.prefix_append _ _))

theorem Runs.append {first middle last : Controller} {before later : List (Nat × ProxyResp)}
    (runs : Runs proxyOf allowed first before middle)
    (goesOn : Runs proxyOf allowed middle later last) :
    Runs proxyOf allowed first (before ++ later) last := by
  induction goesOn with
  | nil =>
      rw [List.append_nil]
      exact runs
  | step taken _ meets stepped extended =>
      rw [← List.append_assoc]
      exact extended.step taken meets stepped

theorem exists_delivery {respCh : Nat} {resp : ProxyResp} {sends : List (Nat × ProxyResp)}
    (reached : Reaches proxyOf Timely ctrl)
    (sending : ctrl.run = .sending ((respCh, resp) :: sends)) :
    ∃ after, Runs proxyOf Timely ctrl [(respCh, resp)] after ∧ after.run = .toSend sends := by
  have fromReceiving : ∀ now : Controller, now.run = .sending ((respCh, resp) :: sends) →
      now.handlers respCh = .receiving →
        ∃ after, Runs proxyOf Timely now [(respCh, resp)] after ∧ after.run = .toSend sends := by
    intro now isSending receiving
    have stepped : now.step proxyOf .deliver =
        some { now.setHandler respCh (.forwarding resp) with run := .toSend sends } := by
      simp only [step, isSending, receive, receiving, Option.map_some]
    have runs := Runs.nil.step .deliver (show Timely _ _ from trivial) stepped
    rw [List.nil_append, handsOver, isSending] at runs
    exact ⟨_, runs, rfl⟩
  obtain ⟨⟨proxyID, registered⟩, _⟩ := reached.enrolled.sends (respCh, resp) (by
    rw [sending]
    exact List.mem_cons_self)
  have listens := reached.enrolled.listens (Or.inr ⟨_, sending⟩) registered
  have stays := reached.noneLeft respCh (by
    rw [sending]
    exact List.mem_cons_self)
  cases isState : ctrl.handlers respCh with
  | receiving => exact fromReceiving ctrl sending isState
  | forwarding held =>
      -- the handler first finishes the message that it has
      have goesOn : ctrl.step proxyOf (.goOn respCh) =
          some (ctrl.setHandler respCh .receiving) := by
        simp only [step, isState, reached.enrolled.forwarded respCh held isState, and_self,
          if_true]
      have runs := Runs.nil.step (.goOn respCh) (show Timely _ _ from trivial) goesOn
      obtain ⟨after, delivers, isRun⟩ := fromReceiving (ctrl.setHandler respCh .receiving) sending
        (by simp)
      exact ⟨after, runs.append delivers, isRun⟩
  | leaving => exact absurd isState stays
  | joining | awaitingJoin | rejected | draining | finished =>
      simp [isState, Listens] at listens

theorem exists_finish {sends : List (Nat × ProxyResp)} (reached : Reaches proxyOf Timely ctrl)
    (sending : ctrl.run = .toSend sends) : ∃ after, Runs proxyOf Timely ctrl sends after := by
  induction sends generalizing ctrl with
  | nil => exact ⟨ctrl, .nil⟩
  | cons send sends induction =>
      obtain ⟨middle, delivers, isRun⟩ := exists_delivery reached sending
      obtain ⟨after, finishes⟩ := induction (delivers.reaches reached) isRun
      exact ⟨after, delivers.append finishes⟩

theorem deliversTicks_of_timely (reached : Reaches proxyOf Timely ctrl) :
    DeliversTicks proxyOf Timely ctrl := by
  intro entries proxyReservations walk middle lists timely stepped
  have reachedMiddle := reached.step _ timely stepped
  simp only [step] at stepped
  split at stepped
  case isFalse => cases stepped
  case isTrue ready =>
    obtain ⟨_, distinct, walks⟩ := ready
    obtain rfl := Option.some.inj stepped
    refine ⟨tickSends ctrl.connProxies proxyReservations walk, ?_, ?_, ?_⟩
    · intro proxyID respCh registered
      apply tickSends_filter lists distinct walks registered
      intro other isOther
      exact (reached.enrolled.own other respCh isOther).symm.trans
        (reached.enrolled.own proxyID respCh registered)
    · intro send member
      exact (tickSends_reservation member).1
    · intro log now runs
      rcases runs.sends rfl with ⟨rest, isRun, same⟩ | done
      · obtain ⟨after, finishes⟩ := exists_finish (runs.reaches reachedMiddle) isRun
        exact ⟨rest, after, finishes, same ▸ List.prefix_refl _⟩
      · exact ⟨[], now, .nil, by rwa [List.append_nil]⟩

end Delivery

/-- Channels are used as they should be in every run, and in a run in which no handler waits
to leave while the loop has a message for it every tick delivers its messages. -/
theorem disciplined_and_delivers (proxyOf : Nat → ProxyID) :
    (∀ ctrl, Reaches proxyOf (fun _ _ => True) ctrl → Disciplined proxyOf ctrl) ∧
      ∀ ctrl, Reaches proxyOf Timely ctrl → DeliversTicks proxyOf Timely ctrl :=
  ⟨fun _ reached => reached.disciplined, fun _ reached => deliversTicks_of_timely reached⟩

/-- Handler `0` is one of the proxy `[1]`, the others are of `[2]`. -/
def twoProxies (handler : Nat) : ProxyID :=
  if handler = 0 then [1] else [2]

/-- Two proxies have joined. -/
theorem disciplined_and_delivers_twoProxies :
    ∃ ctrl, Reaches twoProxies Timely ctrl ∧ ctrl.connProxies.lookup [1] = some 0 ∧
      ctrl.connProxies.lookup [2] = some 1 ∧ DeliversTicks twoProxies Timely ctrl := by
  have ends :
      (play twoProxies Timely [.requestJoin 0, .answerJoin, .requestJoin 1, .answerJoin] {}).map
        (fun ctrl => (ctrl.connProxies.lookup [1], ctrl.connProxies.lookup [2])) =
          some (some 0, some 1) := by
    decide +kernel
  obtain ⟨ctrl, played, facts⟩ := Option.map_eq_some_iff.mp ends
  obtain ⟨first, second⟩ := Prod.mk.inj facts
  have reached := Reaches.start.play played
  exact ⟨ctrl, reached, first, second, (disciplined_and_delivers twoProxies).2 ctrl reached⟩

/-! ## A tick that is not delivered -/

section Blocked

variable {proxyOf : Nat → ProxyID} {ctrl after : Controller} {taken : ControllerStep}
  {allowed : ControllerStep → Controller → Prop}

/-- Nothing that the parties can do hands a message over or ends a deadlock. -/
theorem Deadlocked.steps (deadlocked : ctrl.Deadlocked) (steps : Steps proxyOf ctrl taken after) :
    ctrl.handsOver taken = [] ∧ after.Deadlocked := by
  obtain ⟨respCh, blocked, leaving⟩ := id deadlocked
  have notSelecting : ctrl.run ≠ .selecting := by
    intro selecting
    simp [selecting, RunState.pending] at blocked
  have others : ∀ handler state, ctrl.handlers handler ≠ .leaving →
      (ctrl.setHandler handler state).Deadlocked := by
    intro handler state different
    refine ⟨respCh, blocked, ?_⟩
    rw [setHandler_handlers, if_neg]
    · exact leaving
    · rintro rfl
      exact different leaving
  cases steps with
  | joinRefused _ _ selecting | joinAccepted _ selecting | tickFailed selecting
  | ticked _ _ selecting | leftUnknown _ selecting | leaveTaken _ _ selecting
  | stopped selecting => exact absurd selecting notSelecting
  | refusalReceived handler resp answering _ awaiting
  | acceptanceReceived handler resp answering _ awaiting =>
      have state := deadlocked.leaving (show _ = some handler by rw [answering]; rfl)
      simp [awaiting] at state
  | delivered sentCh resp sends sending received receives =>
      exact absurd receives (deadlocked.not_received (by rw [sending]; rfl))
  | leaveAnswered proxyID answered answering received receives =>
      exact absurd receives (deadlocked.not_received (by rw [answering]; rfl))
  | wentOn handler resp forwarding => exact ⟨rfl, others handler _ (by simp [forwarding])⟩
  | gaveUp handler resp forwarding => exact ⟨rfl, others handler _ (by simp [forwarding])⟩
  | closedWhileReceiving handler closed receiving =>
      exact ⟨rfl, others handler _ (by simp [receiving])⟩
  | drained handler closed draining => exact ⟨rfl, others handler _ (by simp [draining])⟩

theorem Deadlocked.runs {start now : Controller} {log : List (Nat × ProxyResp)}
    (deadlocked : start.Deadlocked) (runs : Runs proxyOf allowed start log now) :
    log = [] ∧ now.Deadlocked := by
  induction runs with
  | nil => exact ⟨rfl, deadlocked⟩
  | step taken _ _ stepped induction =>
      obtain ⟨nothing, still⟩ := induction.2.steps (steps_of_step stepped)
      refine ⟨?_, still⟩
      rw [induction.1, nothing]
      rfl

end Blocked

/-- The stream of the first proxy fails after a tick, and the next tick comes before its
handler has asked to leave: neither proxy gets its message. -/
theorem tick_undelivered :
    ∃ ctrl, Reaches twoProxies (fun _ _ => True) ctrl ∧ ctrl.connProxies.lookup [1] = some 0 ∧
      ctrl.connProxies.lookup [2] = some 1 ∧
      ¬ DeliversTicks twoProxies (fun _ _ => True) ctrl := by
  have ends :
      (play twoProxies (fun _ _ => True)
        [.requestJoin 0, .answerJoin, .requestJoin 1, .answerJoin, .tick [] [[1], [2]], .deliver,
          .deliver, .giveUp 0] {}).bind (fun ctrl =>
        (ctrl.step twoProxies (.tick [] [[1], [2]])).map fun middle =>
          ((ctrl.connProxies.lookup [1], ctrl.connProxies.lookup [2]), middle.run.pending.head?,
            middle.handlers 0)) = some ((some 0, some 1), some 0, .leaving) := by
    decide +kernel
  obtain ⟨ctrl, played, ends⟩ := Option.bind_eq_some_iff.mp ends
  obtain ⟨middle, stepped, facts⟩ := Option.map_eq_some_iff.mp ends
  obtain ⟨registered, facts⟩ := Prod.mk.inj facts
  obtain ⟨blocked, leaving⟩ := Prod.mk.inj facts
  obtain ⟨first, second⟩ := Prod.mk.inj registered
  refine ⟨ctrl, Reaches.start.play played, first, second, ?_⟩
  intro delivers
  have lists : Lists [] [] := by simp [Lists]
  obtain ⟨sends, toEach, _, handed⟩ := delivers [] [] _ middle lists trivial stepped
  obtain ⟨rest, after, runs, isPrefix⟩ := handed [] middle .nil
  have deadlocked : middle.Deadlocked := ⟨0, blocked, leaving⟩
  rw [(deadlocked.runs runs).1, List.append_nil, List.prefix_nil] at isPrefix
  have message := toEach [1] 0 first
  rw [isPrefix] at message
  cases message

end Controller

end Coolbeans
