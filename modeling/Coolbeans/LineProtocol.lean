import Coolbeans.Connection

/-!
# A connection reads lines

What a connection is for, said without reads and buffers: the stream is split at each
first delimiter, each line is a command, the data of the command before it, or a line
to be dropped, and the unfinished line at the end of the stream ends the connection.
`Conn` does exactly this, however the stream is cut into reads, as long as no line is
longer than the limit it is read with.
-/

namespace Coolbeans

open DelimitedStream

/-- What the next line of a stream is. -/
inductive LineRole where
  | command
  | data (cmd : CmdData)
  | dropped
  | ignored
  deriving DecidableEq, Repr

namespace LineRole

/-- What a line in a role makes the connection do, and the role of the line after it. -/
def readLine (maxJobDataSize : Int) : LineRole → Bytes → List ConnEvent × LineRole
  | .command, line =>
      match parseCommandLine line maxJobDataSize with
      | .ok cmd =>
          if cmd.needData then ([], .data cmd)
          else ([Conn.outcome cmd], if cmd.cmdType = .quit then .ignored else .command)
      | .error .cmdNotFound | .error .cmdTokensMissing => ([.reply msgBadFormat], .command)
      | .error .jobSizeTooBig => ([.reply msgJobTooBig], .dropped)
      | .error _ => ([.reply msgInternalError], .command)
  | .data cmd, line => ([Conn.outcome { cmd with data := some line }], .command)
  | .dropped, _ => ([], .command)
  | .ignored, _ => ([], .ignored)

/-- The longest line, with its delimiter, that a role allows. -/
def Allows (maxJobDataSize : Int) : LineRole → Bytes → Prop
  | .command, line => line.length + 2 ≤ maxCmdSizeBytes
  | .data _, line => line.length + 2 ≤ maxJobDataSize
  | .dropped, _ | .ignored, _ => True

instance (maxJobDataSize : Int) (role : LineRole) (line : Bytes) :
    Decidable (role.Allows maxJobDataSize line) := by
  unfold Allows
  split <;> infer_instance

/-- The end of a stream in an unfinished line: an error when the line is too long
already, and a quit. -/
def readEnd (maxJobDataSize : Int) : LineRole → Bytes → List ConnEvent
  | .command, tail =>
      (if maxCmdSizeBytes ≤ tail.length then [.reply msgBadFormat] else []) ++
        [.dispatch { cmdType := .quit }]
  | .data _, tail =>
      (if maxJobDataSize ≤ tail.length then [.reply msgExpectCRLF] else []) ++
        [.dispatch { cmdType := .quit }]
  | .dropped, _ => [.dispatch { cmdType := .quit }]
  | .ignored, _ => []

/-- What lines, and an unfinished line after them, make the connection do. -/
def readLines (maxJobDataSize : Int) : LineRole → List Bytes → Bytes → List ConnEvent
  | role, [], tail => role.readEnd maxJobDataSize tail
  | role, line :: lines, tail =>
      (role.readLine maxJobDataSize line).1 ++
        readLines maxJobDataSize (role.readLine maxJobDataSize line).2 lines tail

/-- Every line is within the limit of its role. -/
def AllowsAll (maxJobDataSize : Int) : LineRole → List Bytes → Prop
  | _, [] => True
  | role, line :: lines =>
      role.Allows maxJobDataSize line ∧
        AllowsAll maxJobDataSize (role.readLine maxJobDataSize line).2 lines

instance decidableAllowsAll (maxJobDataSize : Int) :
    (role : LineRole) → (lines : List Bytes) → Decidable (role.AllowsAll maxJobDataSize lines)
  | _, [] => isTrue trivial
  | role, line :: lines =>
      @instDecidableAnd _ _ _
        (decidableAllowsAll maxJobDataSize (role.readLine maxJobDataSize line).2 lines)

/-- The state of a connection that reads a line in a role. -/
def state : LineRole → ConnState
  | .command => .wantCommand
  | .data _ => .wantData
  | .dropped => .wantEndLine
  | .ignored => .stopped

end LineRole

/-- The lines of a stream and the unfinished line at its end. -/
def linesOf (stream : Bytes) : List Bytes × Bytes :=
  splitAll carriageReturn newline stream

/-- What a stream makes a connection do. -/
def readStream (maxJobDataSize : Int) (role : LineRole) (stream : Bytes) : List ConnEvent :=
  role.readLines maxJobDataSize (linesOf stream).1 (linesOf stream).2

/-- Every line of a stream is within the limit of its role. -/
def StreamAllowed (maxJobDataSize : Int) (role : LineRole) (stream : Bytes) : Prop :=
  role.AllowsAll maxJobDataSize (linesOf stream).1

instance (maxJobDataSize : Int) (role : LineRole) (stream : Bytes) :
    Decidable (StreamAllowed maxJobDataSize role stream) := by
  unfold StreamAllowed
  infer_instance

section Streams

variable {maxJobDataSize : Int} {role : LineRole} {stream line after : Bytes}

theorem readStream_of_some (found : split stream = some (line, after)) :
    readStream maxJobDataSize role stream =
      (role.readLine maxJobDataSize line).1 ++
        readStream maxJobDataSize (role.readLine maxJobDataSize line).2 after := by
  rw [readStream, linesOf, splitAll_of_some found]
  rfl

theorem readStream_of_none (absent : split stream = none) :
    readStream maxJobDataSize role stream = role.readEnd maxJobDataSize stream := by
  rw [readStream, linesOf, splitAll_of_none absent]
  rfl

theorem StreamAllowed.of_some (allowed : StreamAllowed maxJobDataSize role stream)
    (found : split stream = some (line, after)) :
    role.Allows maxJobDataSize line ∧
      StreamAllowed maxJobDataSize (role.readLine maxJobDataSize line).2 after := by
  rw [StreamAllowed, linesOf, splitAll_of_some found] at allowed
  exact allowed

theorem StreamAllowed.of_none (absent : split stream = none) :
    StreamAllowed maxJobDataSize role stream := by
  rw [StreamAllowed, linesOf, splitAll_of_none absent]
  trivial

end Streams

namespace Conn

section Course

variable {maxJobDataSize : Int} {total : List ConnEvent} {role : LineRole} {c next : Conn}
variable {line after : Bytes}

/-- The connection is about to read a line in a role. -/
structure Awaits (c : Conn) (role : LineRole) : Prop where
  flowing : Flowing c.reader
  state : c.state = role.state
  lastCmd : ∀ cmd, role = .data cmd → c.lastCmd = some cmd

/-- What `next` is after `c` has read a line in a role and `after` is left. -/
structure Reads (maxJobDataSize : Int) (role : LineRole) (line after : Bytes) (c next : Conn) :
    Prop where
  awaits : next.Awaits (role.readLine maxJobDataSize line).2
  input : next.input = after
  events : next.events = c.events ++ (role.readLine maxJobDataSize line).1

/-- A connection that has done its part of `total` and will do the rest of it. -/
inductive OnCourse (maxJobDataSize : Int) (total : List ConnEvent) : Conn → Prop
  | reading (c : Conn) (role : LineRole) (awaits : c.Awaits role)
      (allowed : StreamAllowed maxJobDataSize role c.input)
      (rest : total = c.events ++ readStream maxJobDataSize role c.input) :
      OnCourse maxJobDataSize total c
  | closing (c : Conn) (state : c.state = .close)
      (rest : total = c.events ++ [.dispatch { cmdType := .quit }]) :
      OnCourse maxJobDataSize total c
  | done (c : Conn) (state : c.state = .stopped) (rest : total = c.events) :
      OnCourse maxJobDataSize total c

/-- What is left to be done: the bytes, and the states on the way to the end. -/
def toDo (c : Conn) : Nat :=
  2 * c.input.length +
    match c.state with
    | .wantCommand | .wantData => 3
    | .wantEndLine => 2
    | .close => 1
    | .stopped => 0

/-! ## A line -/

theorem reads_command (awaits : c.Awaits .command) (found : split c.input = some (line, after))
    (allowed : LineRole.command.Allows maxJobDataSize line) :
    ∃ next, c.act maxJobDataSize = some next ∧ Reads maxJobDataSize .command line after c next := by
  obtain ⟨extra, rest, scanned, left, flowing⟩ := scan_line awaits.flowing found allowed
  have state : c.state = .wantCommand := awaits.state
  simp only [act, state, wantCommand, if_true, scanned]
  cases parsed : parseCommandLine line maxJobDataSize with
  | error err =>
      cases err <;>
        exact ⟨_, rfl, ⟨flowing, by simp [LineRole.readLine, parsed, LineRole.state, reply],
          by simp [LineRole.readLine, parsed]⟩, left, by simp [LineRole.readLine, parsed, reply]⟩
  | ok cmd =>
      by_cases needs : cmd.needData = true
      case pos =>
        simp only [needs, if_true]
        refine ⟨_, rfl, ⟨flowing, ?_, ?_⟩, left, ?_⟩
        · simp [LineRole.readLine, parsed, needs, LineRole.state]
        · simp [LineRole.readLine, parsed, needs]
        · simp [LineRole.readLine, parsed, needs]
      case neg =>
        simp only [needs]
        rw [if_neg (by simp), dispatchCommand_of_some rfl]
        refine ⟨_, rfl, ⟨flowing, ?_, ?_⟩, left, ?_⟩
        · simp only [LineRole.readLine, parsed, needs]
          by_cases quits : cmd.cmdType = .quit <;> simp [quits, LineRole.state]
        · simp only [LineRole.readLine, parsed, needs]
          by_cases quits : cmd.cmdType = .quit <;> simp [quits]
        · simp [LineRole.readLine, parsed, needs]

theorem reads_data {cmd : CmdData} (awaits : c.Awaits (.data cmd))
    (found : split c.input = some (line, after))
    (allowed : (LineRole.data cmd).Allows maxJobDataSize line) :
    ∃ next, c.act maxJobDataSize = some next ∧
      Reads maxJobDataSize (.data cmd) line after c next := by
  obtain ⟨extra, rest, scanned, left, flowing⟩ := scan_line awaits.flowing found allowed
  have state : c.state = .wantData := awaits.state
  have last := awaits.lastCmd cmd rfl
  simp only [act, state, wantData, if_true, scanned, last]
  rw [dispatchCommand_of_some rfl]
  refine ⟨_, rfl, ⟨flowing, rfl, ?_⟩, left, rfl⟩
  intro other impossible
  cases impossible

theorem reads_dropped (awaits : c.Awaits .dropped) (found : split c.input = some (line, after)) :
    ∃ next, c.act maxJobDataSize = some next ∧
      Reads maxJobDataSize .dropped line after c next := by
  have state : c.state = .wantEndLine := awaits.state
  have finds := discard_finds awaits.flowing c.buffer
  simp only [act, state, wantEndLine, if_true]
  rcases discarded : discard c.reader c.buffer with ⟨result, rest⟩
  rw [discarded] at finds
  cases finds with
  | ended absent => simp [input, absent] at found
  | line _ extra _ foundHere flowing =>
      obtain ⟨rfl, rfl⟩ := Prod.mk.inj (Option.some.inj (found.symm.trans foundHere))
      refine ⟨_, rfl, ⟨flowing, rfl, ?_⟩, rfl, ?_⟩
      · intro cmd impossible
        cases impossible
      · simp [LineRole.readLine]

theorem awaits_reads (awaits : c.Awaits role) (running : c.state ≠ .stopped)
    (found : split c.input = some (line, after)) (allowed : role.Allows maxJobDataSize line) :
    ∃ next, c.act maxJobDataSize = some next ∧ Reads maxJobDataSize role line after c next := by
  cases role with
  | command => exact reads_command awaits found allowed
  | data cmd => exact reads_data awaits found allowed
  | dropped => exact reads_dropped awaits found
  | ignored => exact absurd awaits.state running

theorem Reads.toDo_lt (reads : Reads maxJobDataSize role line after c next)
    (found : split c.input = some (line, after)) : next.toDo < c.toDo := by
  have shorter : c.input.length = line.length + after.length + 2 := splitFirst_length found
  unfold toDo
  rw [reads.input, shorter]
  split <;> omega

/-! ## The end of the stream -/

/-- What a connection is after a scan for a command or for data that met the end of the
stream, and after one that gave up. -/
theorem scan_of_absent {limitBytes : Int} {msg : Bytes} (flowing : Flowing c.reader)
    (absent : split c.input = none) (waiting : c.state = .wantCommand ∨ c.state = .wantData)
    (rest : total =
      c.events ++ ((if limitBytes ≤ c.input.length then [.reply msg] else []) ++
        [.dispatch { cmdType := .quit }])) :
    (scan c.reader c.buffer limitBytes = ⟨.error .eof, [], []⟩ ∧
        ∃ next : Conn, next = { c with reader := [], buffer := [], state := .close } ∧
          OnCourse maxJobDataSize total next ∧ next.toDo < c.toDo) ∨
      ∃ unread, scan c.reader c.buffer limitBytes = ⟨.error .delimiterMissing, [], unread⟩ ∧
        ∃ next : Conn,
          next = { c with
            reader := unread
            buffer := []
            events := c.events ++ [.reply msg]
            state := .wantEndLine } ∧
          OnCourse maxJobDataSize total next ∧ next.toDo < c.toDo := by
  have states : 3 + 2 * c.input.length = c.toDo := by
    rcases waiting with state | state <;> simp [toDo, state, Nat.add_comm]
  rcases scan_tail limitBytes flowing absent with
    ⟨scanned, short⟩ | ⟨unread, scanned, long, none, flowingRest, shorter⟩
  · left
    refine ⟨scanned, _, rfl, .closing _ rfl ?_, ?_⟩
    · rw [rest, if_neg (by rw [input]; omega)]
      rfl
    · rw [← states]
      simp only [toDo, input, List.flatten_nil, List.append_nil, List.length_nil]
      omega
  · right
    have droppedInput : ([] : Bytes) ++ unread.flatten = unread.flatten := List.nil_append _
    refine ⟨unread, scanned, _, rfl, .reading _ .dropped ⟨flowingRest, rfl, ?_⟩ ?_ ?_, ?_⟩
    · intro cmd impossible
      cases impossible
    · exact .of_none (by rw [input, droppedInput]; exact none)
    · rw [readStream_of_none (by rw [input, droppedInput]; exact none), rest, if_pos (by
        rw [input]; exact long)]
      simp [LineRole.readEnd]
    · rw [← states]
      simp only [toDo, input, droppedInput]
      omega

theorem awaits_ends (awaits : c.Awaits role) (running : c.state ≠ .stopped)
    (absent : split c.input = none)
    (rest : total = c.events ++ role.readEnd maxJobDataSize c.input) :
    ∃ next, c.act maxJobDataSize = some next ∧ OnCourse maxJobDataSize total next ∧
      next.toDo < c.toDo := by
  have state := awaits.state
  cases role with
  | command =>
      rw [LineRole.state] at state
      simp only [act, state, wantCommand, if_true]
      rcases scan_of_absent awaits.flowing absent (.inl state) rest with
        ⟨scanned, next, rfl, course⟩ | ⟨unread, scanned, next, rfl, course⟩
      · simp only [scanned]
        exact ⟨_, rfl, course⟩
      · simp only [scanned]
        exact ⟨_, rfl, course⟩
  | data cmd =>
      rw [LineRole.state] at state
      have last := awaits.lastCmd cmd rfl
      simp only [act, state, wantData, if_true, last]
      rcases scan_of_absent awaits.flowing absent (.inr state) rest with
        ⟨scanned, next, rfl, course⟩ | ⟨unread, scanned, next, rfl, course⟩
      · simp only [scanned]
        rw [last] at course
        exact ⟨_, rfl, course⟩
      · simp only [scanned]
        rw [last] at course
        exact ⟨_, rfl, course⟩
  | dropped =>
      rw [LineRole.state] at state
      have finds := discard_finds awaits.flowing c.buffer
      simp only [act, state, wantEndLine, if_true]
      rcases discarded : discard c.reader c.buffer with ⟨result, unread⟩
      rw [discarded] at finds
      cases finds with
      | line _ _ _ found => simp [input, found] at absent
      | ended =>
          refine ⟨_, rfl, .closing _ rfl rest, ?_⟩
          simp [toDo, input, state]
  | ignored => exact absurd awaits.state running

/-! ## The whole stream -/

/-- Every action of a connection that is on course keeps it there. -/
theorem advances_onCourse (maxJobDataSize : Int) (total : List ConnEvent) :
    Advances maxJobDataSize (OnCourse maxJobDataSize total) toDo := by
  intro c course running
  cases course with
  | reading role awaits allowed rest =>
      cases found : split c.input with
      | some parts =>
          obtain ⟨line, after⟩ := parts
          obtain ⟨lineAllowed, restAllowed⟩ := allowed.of_some found
          obtain ⟨next, acts, reads⟩ := awaits_reads awaits running found lineAllowed
          refine ⟨next, acts, .reading _ _ reads.awaits ?_ ?_, reads.toDo_lt found⟩
          · rw [reads.input]
            exact restAllowed
          · rw [rest, readStream_of_some found, reads.events, reads.input, List.append_assoc]
      | none =>
          rw [readStream_of_none found] at rest
          exact awaits_ends awaits running found rest
  | closing state rest =>
      simp only [act, state, close, if_true]
      rw [dispatchCommand_of_some rfl]
      refine ⟨_, rfl, .done _ rfl rest, ?_⟩
      simp [toDo, input, state]
  | done state => exact absurd state running

theorem readLines_ignored (lines : List Bytes) (tail : Bytes) :
    LineRole.ignored.readLines maxJobDataSize lines tail = [] := by
  induction lines with
  | nil => rfl
  | cons line lines induction => exact induction

theorem OnCourse.stopped (course : OnCourse maxJobDataSize total c)
    (stopped : c.state = .stopped) : c.events = total := by
  cases course with
  | reading role awaits _ rest =>
      cases role with
      | ignored => rw [rest, readStream, readLines_ignored, List.append_nil]
      | command | data | dropped =>
          exact absurd (awaits.state.symm.trans stopped) (by simp [LineRole.state])
  | closing state => exact absurd (state.symm.trans stopped) (by decide)
  | done _ rest => exact rest.symm

end Course

end Conn

end Coolbeans
