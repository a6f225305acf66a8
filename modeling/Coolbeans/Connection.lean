import Coolbeans.CommandLine
import Coolbeans.LineScan

/-!
# Connections

The state machine `Conn` of the package `proto`, from the bytes of a client to the
requests that it dispatches and the errors that it writes itself.  The answers of the
command processor are not part of it: a dispatched request has been answered when
`dispatchCommand` goes on.

A function of the source that panics returns `none`.  The states of the source that
none of its functions uses are left out.
-/

namespace Coolbeans

open DelimitedStream

def maxCmdSizeBytes : Int := 226

def msgInternalError : Bytes := text "INTERNAL_ERROR"
def msgBadFormat : Bytes := text "BAD_FORMAT"
def msgUnknownCommand : Bytes := text "UNKNOWN_COMMAND"
def msgJobTooBig : Bytes := text "JOB_TOO_BIG"
def msgExpectCRLF : Bytes := text "EXPECTED_CRLF"

inductive ConnState where
  | wantCommand
  | wantData
  | close
  | wantEndLine
  | stopped
  deriving DecidableEq, Repr

/-- What a connection does that is seen outside: a request to the command processor, or
an error written to the client. -/
inductive ConnEvent where
  | dispatch (cmd : CmdData)
  | reply (msg : Bytes)
  deriving DecidableEq, Repr

structure Conn where
  reader : Reader
  state : ConnState := .wantCommand
  buffer : Bytes := []
  lastCmd : Option CmdData := none
  events : List ConnEvent := []
  deriving DecidableEq

namespace Conn

/-- The error that a command without a request is answered with. -/
def requestErrorMsg : CmdErr → Bytes
  | .cmdNotFound => msgUnknownCommand
  | .badFormat => msgBadFormat
  | _ => msgInternalError

/-- What becomes of a command: a request, or an error. -/
def outcome (cmd : CmdData) : ConnEvent :=
  match newCmdArg cmd with
  | .error err => .reply (requestErrorMsg err)
  | .ok _ => .dispatch cmd

def reply (msg : Bytes) (c : Conn) : Conn :=
  { c with events := c.events ++ [.reply msg] }

def dispatchCommand (c : Conn) : Option Conn :=
  match c.lastCmd with
  | none => none
  | some cmd =>
      match newCmdArg cmd with
      | .error err => some { c.reply (requestErrorMsg err) with lastCmd := none }
      | .ok _ =>
          some
            { c with
              lastCmd := none
              events := c.events ++ [.dispatch cmd]
              state := if cmd.cmdType = .quit then .stopped else c.state }

def close (c : Conn) : Option Conn :=
  if c.state = .close then
    dispatchCommand { c with lastCmd := some { cmdType := .quit } }
  else some c

def wantEndLine (c : Conn) : Option Conn :=
  if c.state = .wantEndLine then
    match discard c.reader c.buffer with
    | (.ok extraBytes, reader) =>
        some { c with reader, buffer := extraBytes, state := .wantCommand }
    | (.error .eof, reader) => some { c with reader, buffer := [], state := .close }
    | (.error _, reader) => some (reply msgInternalError { c with reader, buffer := [] })
  else some c

def wantData (maxJobDataSize : Int) (c : Conn) : Option Conn :=
  if c.state = .wantData then
    match c.lastCmd with
    | none => none
    | some cmd =>
        let scanned := scan c.reader c.buffer maxJobDataSize
        let c := { c with reader := scanned.rdr, buffer := scanned.extra }
        match scanned.line with
        | .ok dataBytes => do
            let c ← dispatchCommand { c with lastCmd := some { cmd with data := some dataBytes } }
            return { c with state := .wantCommand }
        | .error .eof => some { c with state := .close }
        | .error .delimiterMissing => some { c.reply msgExpectCRLF with state := .wantEndLine }
        | .error _ => some (c.reply msgInternalError)
  else some c

def wantCommand (maxJobDataSize : Int) (c : Conn) : Option Conn :=
  if c.state = .wantCommand then
    let scanned := scan c.reader c.buffer maxCmdSizeBytes
    let c := { c with reader := scanned.rdr, buffer := scanned.extra }
    match scanned.line with
    | .ok cmdBytes =>
        match parseCommandLine cmdBytes maxJobDataSize with
        | .ok cmdData =>
            let c := { c with lastCmd := some cmdData }
            if cmdData.needData then some { c with state := .wantData } else dispatchCommand c
        | .error .cmdNotFound | .error .cmdTokensMissing => some (c.reply msgBadFormat)
        | .error .jobSizeTooBig => some { c.reply msgJobTooBig with state := .wantEndLine }
        | .error _ => some (c.reply msgInternalError)
    | .error .eof => some { c with state := .close }
    | .error .delimiterMissing => some { c.reply msgBadFormat with state := .wantEndLine }
    | .error _ => some (c.reply msgInternalError)
  else some c

/-- One turn of the loop of `Tick`. -/
def turn (maxJobDataSize : Int) (c : Conn) : Option Conn := do
  let c ← c.wantCommand maxJobDataSize
  let c ← c.wantData maxJobDataSize
  let c ← c.wantEndLine
  c.close

/-- At most `turns` turns of the loop of `Tick`, which ends in the state `Stopped`. -/
def tick (maxJobDataSize : Int) : Nat → Conn → Option Conn
  | 0, c => some c
  | turns + 1, c =>
      if c.state = .stopped then some c
      else do tick maxJobDataSize turns (← c.turn maxJobDataSize)

/-- The function of the loop that acts in the state of the connection. -/
def act (maxJobDataSize : Int) (c : Conn) : Option Conn :=
  match c.state with
  | .wantCommand => c.wantCommand maxJobDataSize
  | .wantData => c.wantData maxJobDataSize
  | .wantEndLine => c.wantEndLine
  | .close => c.close
  | .stopped => some c

/-- The bytes that a connection has not processed. -/
def input (c : Conn) : Bytes :=
  c.buffer ++ c.reader.flatten

/-- A command is dispatched or answered with an error; only a quit ends the connection. -/
theorem dispatchCommand_of_some {c : Conn} {cmd : CmdData} (last : c.lastCmd = some cmd) :
    c.dispatchCommand =
      some
        { c with
          lastCmd := none
          events := c.events ++ [outcome cmd]
          state := if cmd.cmdType = .quit then .stopped else c.state } := by
  unfold dispatchCommand outcome
  rw [last]
  dsimp only
  cases parsed : newCmdArg cmd with
  | ok arg => rfl
  | error err =>
      have notQuit : cmd.cmdType ≠ .quit := by
        intro isQuit
        simp [newCmdArg, isQuit] at parsed
      simp [notQuit, reply]

section Turns

variable {maxJobDataSize : Int} {c : Conn}

theorem wantCommand_eq :
    c.wantCommand maxJobDataSize =
      if c.state = .wantCommand then c.act maxJobDataSize else some c := by
  split
  case isTrue state => rw [act, state]
  case isFalse state => rw [wantCommand, if_neg state]

theorem wantData_eq :
    c.wantData maxJobDataSize =
      if c.state = .wantData then c.act maxJobDataSize else some c := by
  split
  case isTrue state => rw [act, state]
  case isFalse state => rw [wantData, if_neg state]

theorem wantEndLine_eq :
    c.wantEndLine = if c.state = .wantEndLine then c.act maxJobDataSize else some c := by
  split
  case isTrue state => rw [act, state]
  case isFalse state => rw [wantEndLine, if_neg state]

theorem close_eq : c.close = if c.state = .close then c.act maxJobDataSize else some c := by
  split
  case isTrue state => rw [act, state]
  case isFalse state => rw [close, if_neg state]

end Turns

/-! ## Runs -/

section Runs

variable {maxJobDataSize : Int} {holds : Conn → Prop} {measure : Conn → Nat} {c : Conn}

/-- Where an action is taken, it leads on, keeps what is said to hold and lowers the
measure. -/
def Advances (maxJobDataSize : Int) (holds : Conn → Prop) (measure : Conn → Nat) : Prop :=
  ∀ c, holds c → c.state ≠ .stopped →
    ∃ after, c.act maxJobDataSize = some after ∧ holds after ∧ measure after < measure c

/-- A function of the loop acts in its own state only. -/
theorem Advances.guarded {function : Option Conn} {own : ConnState}
    (advances : Advances maxJobDataSize holds measure) (start : holds c)
    (guard : function = if c.state = own then c.act maxJobDataSize else some c)
    (running : own ≠ .stopped) :
    ∃ after, function = some after ∧ holds after ∧
      (c.state = own ∧ measure after < measure c ∨ c.state ≠ own ∧ after = c) := by
  by_cases state : c.state = own
  case pos =>
    obtain ⟨after, acts, kept, lower⟩ := advances c start (state ▸ running)
    rw [if_pos state] at guard
    exact ⟨after, guard.trans acts, kept, .inl ⟨state, lower⟩⟩
  case neg =>
    rw [if_neg state] at guard
    exact ⟨c, guard, start, .inr ⟨state, rfl⟩⟩

/-- What every action keeps, a turn of the loop keeps; and it lowers what every action
lowers. -/
theorem Advances.turn (advances : Advances maxJobDataSize holds measure) (start : holds c)
    (running : c.state ≠ .stopped) :
    ∃ after, c.turn maxJobDataSize = some after ∧ holds after ∧ measure after < measure c := by
  obtain ⟨first, ran₁, holds₁, moved₁⟩ :=
    advances.guarded start wantCommand_eq (by decide)
  obtain ⟨second, ran₂, holds₂, moved₂⟩ :=
    advances.guarded holds₁ wantData_eq (by decide)
  obtain ⟨third, ran₃, holds₃, moved₃⟩ :=
    advances.guarded holds₂ wantEndLine_eq (by decide)
  obtain ⟨last, ran₄, holds₄, moved₄⟩ :=
    advances.guarded holds₃ close_eq (by decide)
  refine ⟨last, ?_, holds₄, ?_⟩
  · simp [Conn.turn, ran₁, ran₂, ran₃, ran₄]
  · have atMost₁ : measure first ≤ measure c := by
      rcases moved₁ with ⟨_, lower⟩ | ⟨_, rfl⟩ <;> omega
    have atMost₂ : measure second ≤ measure first := by
      rcases moved₂ with ⟨_, lower⟩ | ⟨_, rfl⟩ <;> omega
    have atMost₃ : measure third ≤ measure second := by
      rcases moved₃ with ⟨_, lower⟩ | ⟨_, rfl⟩ <;> omega
    have atMost₄ : measure last ≤ measure third := by
      rcases moved₄ with ⟨_, lower⟩ | ⟨_, rfl⟩ <;> omega
    rcases moved₁ with ⟨_, lower⟩ | ⟨notCommand, rfl⟩
    · omega
    rcases moved₂ with ⟨_, lower⟩ | ⟨notData, rfl⟩
    · omega
    rcases moved₃ with ⟨_, lower⟩ | ⟨notEndLine, rfl⟩
    · omega
    rcases moved₄ with ⟨_, lower⟩ | ⟨notClose, rfl⟩
    · omega
    cases state : last.state <;> contradiction

/-- The loop ends once it has as many turns as the measure says. -/
theorem Advances.tick (advances : Advances maxJobDataSize holds measure) (start : holds c)
    {turns : Nat} (enough : measure c < turns) :
    ∃ after, Conn.tick maxJobDataSize turns c = some after ∧ after.state = .stopped ∧
      holds after := by
  induction turns generalizing c with
  | zero => omega
  | succ turns induction =>
      rw [Conn.tick]
      split
      case isTrue stopped => exact ⟨c, rfl, stopped, start⟩
      case isFalse running =>
        obtain ⟨after, turned, kept, lower⟩ := advances.turn start running
        simp only [turned, Option.bind_eq_bind, Option.bind_some]
        exact induction kept (by omega)

end Runs

end Conn

end Coolbeans
