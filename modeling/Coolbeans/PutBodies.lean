import Coolbeans.PutFraming
import Coolbeans.ScanExactness

/-!
# Bodies that the size check admits

`ParseCommandLine` admits a put whose body is no longer than the configured size, and
`ScanJobData` looks for the delimiter behind the body within the same number of bytes, although
body and delimiter together are two bytes longer.  Whether a body of the full size, or of one
byte less, is accepted depends on how its bytes arrive.
-/

namespace Coolbeans

open DelimitedStream

namespace Conn

/-- The connection reads a put line and takes its body: one turn of the loop dispatches the put
with just this body, and the bytes behind the body come next. -/
def PutsBody (maxJobDataSize : Int) (c : Conn) (cmd : CmdData) (body more : Bytes) : Prop :=
  ∃ next, c.turn maxJobDataSize = some next ∧
    next.events = c.events ++ [.dispatch { cmd with data := some body }] ∧
    next.state = .wantCommand ∧ next.input = more

/-- A connection at the start of a put line, with the body behind it. -/
structure AtPut (maxJobDataSize : Int) (c : Conn) (line body more : Bytes) (cmd : CmdData)
    (arg : PutArg) : Prop where
  state : c.state = .wantCommand
  flowing : Flowing c.reader
  bytes : c.input = line ++ [carriageReturn, newline] ++ (body ++ [carriageReturn, newline] ++ more)
  oneLine : ¬ [carriageReturn, newline] <:+: line
  parsed : parseCommandLine line maxJobDataSize = .ok cmd
  isPut : cmd.cmdType = .put
  announced : newPutArg cmd = .ok arg
  size : body.length = arg.size.toInt
  undelimited : ¬ [carriageReturn, newline] <:+: body

/-- The connection does not stop scanning inside the put line, nor inside the body or the
delimiter behind it. -/
def Unstopped (maxJobDataSize : Int) (c : Conn) (line body : Bytes) : Prop :=
  ¬ StopsBefore maxCmdSizeBytes c.buffer c.reader (line.length + 2) ∧
    ¬ StopsBefore maxJobDataSize (scan c.reader c.buffer maxCmdSizeBytes).extra
      (scan c.reader c.buffer maxCmdSizeBytes).rdr (body.length + 2)

section AtPut

variable {maxJobDataSize : Int} {c next : Conn} {line body more extra : Bytes} {rest : Reader}
  {cmd : CmdData} {arg : PutArg}

/-- What a turn does after the first two functions of the loop is added to the events. -/
theorem turn_events (turned : c.turn maxJobDataSize = some next) :
    ∃ first second added, c.wantCommand maxJobDataSize = some first ∧
      first.wantData maxJobDataSize = some second ∧ next.events = second.events ++ added := by
  simp only [turn, Option.bind_eq_bind, Option.bind_eq_some_iff] at turned
  obtain ⟨first, ran₁, second, ran₂, third, ran₃, ran₄⟩ := turned
  have ended : ∃ added, third.events = second.events ++ added := by
    unfold wantEndLine at ran₃
    split at ran₃
    case isTrue =>
      split at ran₃ <;> obtain rfl := Option.some.inj ran₃
      · exact ⟨[], (List.append_nil _).symm⟩
      · exact ⟨[], (List.append_nil _).symm⟩
      · exact ⟨_, rfl⟩
    case isFalse =>
      obtain rfl := Option.some.inj ran₃
      exact ⟨[], (List.append_nil _).symm⟩
  have closed : ∃ added, next.events = third.events ++ added := by
    unfold close at ran₄
    split at ran₄
    case isTrue =>
      rw [dispatchCommand_of_some rfl] at ran₄
      obtain rfl := Option.some.inj ran₄
      exact ⟨_, rfl⟩
    case isFalse =>
      obtain rfl := Option.some.inj ran₄
      exact ⟨[], (List.append_nil _).symm⟩
  obtain ⟨added, ended⟩ := ended
  obtain ⟨last, closed⟩ := closed
  refine ⟨first, second, added ++ last, ran₁, ran₂, ?_⟩
  rw [closed, ended, List.append_assoc]

namespace AtPut

variable (atPut : AtPut maxJobDataSize c line body more cmd arg)

include atPut

theorem needData : cmd.needData = true := by
  rcases parseCommandLine_ok atPut.parsed with ⟨notPut, _⟩ | ⟨_, needs, _⟩
  · exact absurd atPut.isPut notPut
  · exact needs

theorem found_line : split c.input =
    some (line, body ++ [carriageReturn, newline] ++ more) := by
  rw [split_eq_some_iff, CutAt, atPut.bytes, List.append_assoc]
  exact ⟨rfl, atPut.oneLine⟩

theorem found_body {input : Bytes} (left : input = body ++ [carriageReturn, newline] ++ more) :
    split input = some (body, more) := by
  rw [split_eq_some_iff, CutAt, left, List.append_assoc]
  exact ⟨rfl, atPut.undelimited⟩

/-- After the put line the connection waits for the body. -/
theorem wantCommand_eq_some
    (scanned : scan c.reader c.buffer maxCmdSizeBytes = ⟨.ok line, extra, rest⟩) :
    c.wantCommand maxJobDataSize = some { c with
      reader := rest, buffer := extra, lastCmd := some cmd, state := .wantData } := by
  simp only [wantCommand, atPut.state, if_true, scanned, atPut.parsed, atPut.needData]

theorem outcome_body : outcome { cmd with data := some body } =
    .dispatch { cmd with data := some body } :=
  outcome_put atPut.isPut (newPutArg_withData atPut.announced (some body))

theorem putsBody (unstopped : c.Unstopped maxJobDataSize line body) :
    c.PutsBody maxJobDataSize cmd body more := by
  obtain ⟨lineRead, bodyRead⟩ := unstopped
  obtain ⟨extra, rest, scanned, left, flowing⟩ :=
    scan_goes_on atPut.flowing atPut.found_line lineRead
  rw [scanned] at bodyRead
  obtain ⟨later, unread, scannedBody, leftAfter, _⟩ :=
    scan_goes_on flowing (atPut.found_body left) bodyRead
  let next : Conn :=
    { c with
      reader := unread
      buffer := later
      lastCmd := none
      state := .wantCommand
      events := c.events ++ [.dispatch { cmd with data := some body }] }
  have takes : wantData maxJobDataSize { c with
      reader := rest, buffer := extra, lastCmd := some cmd, state := .wantData } = some next := by
    simp only [wantData, if_true, scannedBody]
    rw [dispatchCommand_of_some rfl, atPut.outcome_body]
    rfl
  refine ⟨next, ?_, rfl, rfl, leftAfter⟩
  simp only [turn, atPut.wantCommand_eq_some scanned, takes, Option.bind_eq_bind,
    Option.bind_some]
  rfl

theorem unstopped (puts : c.PutsBody maxJobDataSize cmd body more) :
    c.Unstopped maxJobDataSize line body := by
  obtain ⟨next, turned, events, _⟩ := puts
  obtain ⟨first, second, added, ran₁, ran₂, isNext⟩ := turn_events turned
  rw [events] at isNext
  rcases scan_line_or_missing atPut.flowing maxCmdSizeBytes atPut.found_line with
    ⟨extra, rest, scanned, left, flowing⟩ | ⟨rest, gaveUp⟩
  · rw [atPut.wantCommand_eq_some scanned] at ran₁
    obtain rfl := Option.some.inj ran₁
    have found := atPut.found_body left
    rcases scan_line_or_missing flowing maxJobDataSize found with
      ⟨later, unread, scannedBody, _⟩ | ⟨unread, gaveUp⟩
    · refine ⟨(scan_accepts_iff atPut.flowing _ atPut.found_line).mp ⟨extra, rest, scanned⟩, ?_⟩
      rw [scanned]
      exact (scan_accepts_iff flowing _ found).mp ⟨later, unread, scannedBody⟩
    · simp only [wantData, if_true, gaveUp] at ran₂
      obtain rfl := Option.some.inj ran₂
      simp [reply] at isNext
  · simp only [wantCommand, atPut.state, if_true, gaveUp] at ran₁
    obtain rfl := Option.some.inj ran₁
    simp only [wantData] at ran₂
    obtain rfl := Option.some.inj ran₂
    simp [reply] at isNext

end AtPut

/-- Two bytes less than the limit are enough, however the bytes come. -/
theorem unstopped_of_within (lineFits : line.length + 2 ≤ maxCmdSizeBytes)
    (bodyFits : body.length + 2 ≤ maxJobDataSize) : c.Unstopped maxJobDataSize line body := by
  constructor
  · rintro ⟨_, _, _, reached, early⟩
    omega
  · rintro ⟨_, _, _, reached, early⟩
    omega

/-- A put whose body has the announced size is dispatched with just this body exactly if
no scan of the connection stops before it has seen the delimiter. -/
theorem putsBody_iff (atPut : AtPut maxJobDataSize c line body more cmd arg) :
    c.PutsBody maxJobDataSize cmd body more ↔ c.Unstopped maxJobDataSize line body :=
  ⟨atPut.unstopped, atPut.putsBody⟩

/-- A put of two bytes. -/
def putTwo : CmdData :=
  { cmdType := .put, args := text "0 0 60 2", data := some [], needData := true }

/-- The bytes of a put of two bytes, cut before the last byte of the body. -/
theorem putsBody_iff_cutBody :
    PutsBody 4 { reader := [text "put 0 0 60 2\r\na", text "b\r\n"] } putTwo (text "ab") [] := by
  have atPut : AtPut 4 { reader := [text "put 0 0 60 2\r\na", text "b\r\n"] }
      (text "put 0 0 60 2") (text "ab") [] putTwo ⟨0, 0, 60, 2, some []⟩ :=
    ⟨rfl, by decide, by decide +kernel, split_eq_none_iff.mp (by decide +kernel),
      by decide +kernel, rfl, by decide +kernel, by decide +kernel,
      split_eq_none_iff.mp (by decide +kernel)⟩
  exact (putsBody_iff atPut).mpr (unstopped_of_within (by decide +kernel) (by decide +kernel))

/-- A body of the full size is refused if it comes in a read of its own, and dispatched if it
comes with its put line. -/
theorem fullSize_refused :
    AtPut 2 { reader := [text "put 0 0 60 2\r\n", text "ab\r\n"] } (text "put 0 0 60 2")
        (text "ab") [] putTwo ⟨0, 0, 60, 2, some []⟩ ∧
      ¬ PutsBody 2 { reader := [text "put 0 0 60 2\r\n", text "ab\r\n"] } putTwo (text "ab") [] ∧
      (tick 2 20 { reader := [text "put 0 0 60 2\r\n", text "ab\r\n"] }).map Conn.events =
        some [.reply msgExpectCRLF, .dispatch { cmdType := .quit }] ∧
      (tick 2 20 { reader := [text "put 0 0 60 2\r\nab\r\n"] }).map Conn.events =
        some [.dispatch { putTwo with data := some (text "ab") },
          .dispatch { cmdType := .quit }] := by
  refine ⟨⟨rfl, by decide, by decide +kernel, split_eq_none_iff.mp (by decide +kernel),
    by decide +kernel, rfl, by decide +kernel, by decide +kernel,
    split_eq_none_iff.mp (by decide +kernel)⟩, ?_, by decide +kernel, by decide +kernel⟩
  rintro ⟨next, turned, events, _⟩
  have refuses : (turn 2 { reader := [text "put 0 0 60 2\r\n", text "ab\r\n"] }).map Conn.events =
      some [.reply msgExpectCRLF] := by decide +kernel
  rw [turned, Option.map_some, events] at refuses
  cases refuses

end AtPut

end Conn

end Coolbeans
