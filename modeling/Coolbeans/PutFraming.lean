import Coolbeans.Connection

/-!
# The body of a put

`NewPutArg` reads the size of a body from the command line; `wantData` takes the bytes
up to the next delimiter for the body, whatever their number.  Nothing compares the two.
The body of a dispatched put has the announced length exactly when the first delimiter
after the command line stands behind that many bytes.
-/

namespace Coolbeans

open DelimitedStream

namespace Conn

/-- The states that a connection goes through on a reader. -/
inductive Visits (maxJobDataSize : Int) (reader : Reader) : Conn → Prop
  | start : Visits maxJobDataSize reader { reader }
  | act {c next : Conn} (visited : Visits maxJobDataSize reader c)
      (acts : c.act maxJobDataSize = some next) : Visits maxJobDataSize reader next

section Actions

variable {maxJobDataSize : Int} {reader : Reader} {c next : Conn}

/-- What the loop of `Tick` reaches is visited. -/
theorem Visits.guarded {function : Option Conn} {own : ConnState}
    (visited : Visits maxJobDataSize reader c) (ran : function = some next)
    (guard : function = if c.state = own then c.act maxJobDataSize else some c) :
    Visits maxJobDataSize reader next := by
  rw [guard] at ran
  split at ran
  case isTrue => exact visited.act ran
  case isFalse =>
    obtain rfl := Option.some.inj ran
    exact visited

theorem Visits.turn (visited : Visits maxJobDataSize reader c)
    (ran : c.turn maxJobDataSize = some next) : Visits maxJobDataSize reader next := by
  simp only [Conn.turn, Option.bind_eq_bind, Option.bind_eq_some_iff] at ran
  obtain ⟨first, ran₁, second, ran₂, third, ran₃, ran₄⟩ := ran
  exact (((visited.guarded ran₁ wantCommand_eq).guarded ran₂ wantData_eq).guarded ran₃
    wantEndLine_eq).guarded ran₄ close_eq

theorem Visits.tick {turns : Nat} (visited : Visits maxJobDataSize reader c)
    (ran : tick maxJobDataSize turns c = some next) : Visits maxJobDataSize reader next := by
  induction turns generalizing c with
  | zero =>
      obtain rfl := Option.some.inj ran
      exact visited
  | succ turns induction =>
      rw [Conn.tick] at ran
      split at ran
      case isTrue =>
        obtain rfl := Option.some.inj ran
        exact visited
      case isFalse =>
        rw [Option.bind_eq_bind, Option.bind_eq_some_iff] at ran
        obtain ⟨middle, turned, ran⟩ := ran
        exact induction (visited.turn turned) ran

/-- What an action does to the puts: nothing, or it accepts the line of one and waits for
its body, or it takes the body of the put that it waited for. -/
inductive PutStep (maxJobDataSize : Int) (c next : Conn) : Prop
  | quiet (added : List ConnEvent) (flowing : Flowing next.reader)
      (state : next.state ≠ .wantData) (events : next.events = c.events ++ added)
      (noPut : ∀ cmd, .dispatch cmd ∈ added → cmd.cmdType ≠ .put)
  | accepts (cmd : CmdData) (arg : PutArg) (flowing : Flowing next.reader)
      (last : next.lastCmd = some cmd) (isPut : cmd.cmdType = .put)
      (parsed : newPutArg cmd = .ok arg) (events : next.events = c.events)
  | takes (cmd : CmdData) (body : Bytes) (flowing : Flowing next.reader)
      (waiting : c.state = .wantData) (last : c.lastCmd = some cmd)
      (scanned : (scan c.reader c.buffer maxJobDataSize).line = .ok body)
      (state : next.state = .wantCommand)
      (events : next.events = c.events ++ [outcome { cmd with data := some body }])

theorem outcome_dispatch {cmd dispatched : CmdData} (equal : outcome cmd = .dispatch dispatched) :
    dispatched = cmd := by
  unfold outcome at equal
  split at equal
  case h_1 => cases equal
  case h_2 => exact (ConnEvent.dispatch.inj equal).symm

theorem putStep_wantCommand (flowing : Flowing c.reader) (state : c.state = .wantCommand)
    (acts : c.act maxJobDataSize = some next) : PutStep maxJobDataSize c next := by
  have finds := scan_finds flowing c.buffer maxCmdSizeBytes
  simp only [act, state, wantCommand, if_true] at acts
  rcases scanned : scan c.reader c.buffer maxCmdSizeBytes with ⟨line, extra, rest⟩
  rw [scanned] at finds
  simp only [scanned] at acts
  cases finds with
  | ended =>
      obtain rfl := Option.some.inj acts
      exact .quiet [] flowing_nil (by simp) (by simp) (by simp)
  | missing _ _ _ _ _ later =>
      obtain rfl := Option.some.inj acts
      exact .quiet [.reply msgBadFormat] later (by simp) rfl (by simp)
  | line left _ _ _ later =>
      cases parsed : parseCommandLine left maxJobDataSize with
      | error err =>
          simp only [parsed] at acts
          cases err <;> obtain rfl := Option.some.inj acts <;>
            exact .quiet [.reply _] later (by simp [reply]) rfl (by simp)
      | ok cmd =>
          simp only [parsed] at acts
          rcases parseCommandLine_ok parsed with ⟨notPut, needs⟩ | ⟨isPut, needs, arg, accepted, _⟩
          · rw [needs, if_neg (by simp), dispatchCommand_of_some rfl] at acts
            obtain rfl := Option.some.inj acts
            refine .quiet [outcome cmd] later ?_ rfl ?_
            · by_cases quits : cmd.cmdType = .quit <;> simp [quits]
            · intro dispatched member
              rw [List.mem_singleton] at member
              rw [outcome_dispatch member.symm]
              exact notPut
          · rw [needs, if_pos rfl] at acts
            obtain rfl := Option.some.inj acts
            exact .accepts cmd arg later rfl isPut accepted rfl

theorem putStep_wantData (flowing : Flowing c.reader) (state : c.state = .wantData)
    (acts : c.act maxJobDataSize = some next) : PutStep maxJobDataSize c next := by
  have finds := scan_finds flowing c.buffer maxJobDataSize
  simp only [act, state, wantData, if_true] at acts
  cases last : c.lastCmd with
  | none => simp [last] at acts
  | some cmd =>
      rcases scanned : scan c.reader c.buffer maxJobDataSize with ⟨line, extra, rest⟩
      rw [scanned] at finds
      simp only [scanned, last] at acts
      cases finds with
      | ended =>
          obtain rfl := Option.some.inj acts
          exact .quiet [] flowing_nil (by simp) (by simp) (by simp)
      | missing _ _ _ _ _ later =>
          obtain rfl := Option.some.inj acts
          exact .quiet [.reply msgExpectCRLF] later (by simp) rfl (by simp)
      | line body _ _ _ later =>
          dsimp only at acts
          rw [dispatchCommand_of_some rfl] at acts
          obtain rfl := Option.some.inj acts
          exact .takes cmd body later state last (by rw [scanned]) rfl rfl

theorem putStep_wantEndLine (flowing : Flowing c.reader) (state : c.state = .wantEndLine)
    (acts : c.act maxJobDataSize = some next) : PutStep maxJobDataSize c next := by
  have finds := discard_finds flowing c.buffer
  simp only [act, state, wantEndLine, if_true] at acts
  rcases discarded : discard c.reader c.buffer with ⟨result, rest⟩
  rw [discarded] at finds acts
  cases finds with
  | ended =>
      obtain rfl := Option.some.inj acts
      exact .quiet [] flowing_nil (by simp) (by simp) (by simp)
  | line _ _ _ _ later =>
      obtain rfl := Option.some.inj acts
      exact .quiet [] later (by simp) (by simp) (by simp)

theorem putStep_close (flowing : Flowing c.reader) (state : c.state = .close)
    (acts : c.act maxJobDataSize = some next) : PutStep maxJobDataSize c next := by
  simp only [act, state, close, if_true] at acts
  rw [dispatchCommand_of_some rfl] at acts
  obtain rfl := Option.some.inj acts
  refine .quiet [outcome { cmdType := .quit }] flowing (by simp) rfl ?_
  intro dispatched member
  rw [List.mem_singleton] at member
  rw [outcome_dispatch member.symm]
  simp

theorem putStep_of_act (flowing : Flowing c.reader) (acts : c.act maxJobDataSize = some next) :
    PutStep maxJobDataSize c next := by
  cases state : c.state with
  | wantCommand => exact putStep_wantCommand flowing state acts
  | wantData => exact putStep_wantData flowing state acts
  | wantEndLine => exact putStep_wantEndLine flowing state acts
  | close => exact putStep_close flowing state acts
  | stopped =>
      simp only [act, state] at acts
      obtain rfl := Option.some.inj acts
      exact .quiet [] flowing (by simp [state]) (by simp) (by simp)

/-- A connection that waits for data has accepted the line of a put. -/
structure PutAccepted (c : Conn) : Prop where
  flowing : Flowing c.reader
  waits : c.state = .wantData →
    ∃ cmd arg, c.lastCmd = some cmd ∧ cmd.cmdType = .put ∧ newPutArg cmd = .ok arg

theorem Visits.putAccepted (flowing : Flowing reader)
    (visited : Visits maxJobDataSize reader c) : c.PutAccepted := by
  induction visited with
  | start => exact ⟨flowing, by simp⟩
  | act _ acts accepted =>
      cases putStep_of_act accepted.flowing acts with
      | quiet _ later state => exact ⟨later, fun waits => absurd waits state⟩
      | accepts cmd arg later last isPut parsed =>
          exact ⟨later, fun _ => ⟨cmd, arg, last, isPut, parsed⟩⟩
      | takes _ _ later _ _ _ state => exact ⟨later, fun waits => by simp [state] at waits⟩

/-! ## The announced length -/

/-- A put carries a body of the length that its command line announces. -/
def CarriesAnnounced (cmd : CmdData) : Prop :=
  match newPutArg cmd, cmd.data with
  | .ok arg, some body => body.length = arg.size.toInt
  | _, _ => False

instance (cmd : CmdData) : Decidable (CarriesAnnounced cmd) := by
  unfold CarriesAnnounced
  split <;> infer_instance

theorem carriesAnnounced_iff {cmd : CmdData} {arg : PutArg} {body : Bytes}
    (parsed : newPutArg cmd = .ok arg) (data : cmd.data = some body) :
    CarriesAnnounced cmd ↔ body.length = arg.size.toInt := by
  rw [CarriesAnnounced, parsed, data]

/-- Every put that the connection has dispatched carries its announced length. -/
def PutsFramed (c : Conn) : Prop :=
  ∀ cmd, .dispatch cmd ∈ c.events → cmd.cmdType = .put → CarriesAnnounced cmd

/-- When the connection takes bytes for the body of a put, the first delimiter of what it
has not processed stands behind the announced number of bytes. -/
def DelimitedAsAnnounced (maxJobDataSize : Int) (c : Conn) : Prop :=
  c.state = .wantData → ∀ cmd arg body, c.lastCmd = some cmd → newPutArg cmd = .ok arg →
    (scan c.reader c.buffer maxJobDataSize).line = .ok body →
      ∃ before after, split c.input = some (before, after) ∧ before.length = arg.size.toInt

/-- A connection that takes the body of a put dispatches the put with it. -/
theorem act_takes {cmd : CmdData} {body : Bytes} (state : c.state = .wantData)
    (last : c.lastCmd = some cmd)
    (scanned : (scan c.reader c.buffer maxJobDataSize).line = .ok body) :
    ∃ next, c.act maxJobDataSize = some next ∧
      next.events = c.events ++ [outcome { cmd with data := some body }] := by
  simp only [act, state, wantData, if_true, last, scanned]
  rw [dispatchCommand_of_some rfl]
  exact ⟨_, rfl, rfl⟩

theorem outcome_put {cmd : CmdData} {arg : PutArg} (isPut : cmd.cmdType = .put)
    (parsed : newPutArg cmd = .ok arg) : outcome cmd = .dispatch cmd := by
  simp [outcome, newCmdArg, isPut, parsed]

/-- A put of two bytes that comes in two reads. -/
def onePut : Reader := [text "put 0 0 60 2\r\nab\r", text "\n"]

def onePutStates : List Conn :=
  (List.range 8).map fun actions => actions.repeat (fun c => (act 100 c).getD c)
    { reader := onePut }

end Actions

end Conn

end Coolbeans
