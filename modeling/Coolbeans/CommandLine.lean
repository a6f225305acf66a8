import Coolbeans.JobRecord

/-!
# Command lines

`ParseCommandLine`, the parsers of the arguments and `NewCmdRequest` of the package
`core`.  The regular expressions of the source are written out as functions of
bytes; the class `\s` is the ASCII one.  The texts of the commands are made, as in
the source, out of the names of the constants.
-/

namespace Coolbeans

/-- The bytes of an ASCII text. -/
def text (s : String) : Bytes :=
  s.toList.map fun ch => UInt8.ofNat ch.toNat

inductive CmdType where
  | unknown
  | bury
  | delete
  | ignore
  | kick
  | kickJob
  | listTubes
  | listTubeUser
  | pauseTube
  | peek
  | peekBuried
  | peekDelayed
  | peekReady
  | put
  | quit
  | release
  | reserve
  | reserveJob
  | reserveWithTimeout
  | stats
  | statsJob
  | statsTube
  | touch
  | use
  | watch
  deriving DecidableEq, Repr

/-- The name of the constant, as the generated `String` method gives it. -/
def CmdType.string : CmdType → String
  | .unknown => "Unknown"
  | .bury => "Bury"
  | .delete => "Delete"
  | .ignore => "Ignore"
  | .kick => "Kick"
  | .kickJob => "KickJob"
  | .listTubes => "ListTubes"
  | .listTubeUser => "ListTubeUser"
  | .pauseTube => "PauseTube"
  | .peek => "Peek"
  | .peekBuried => "PeekBuried"
  | .peekDelayed => "PeekDelayed"
  | .peekReady => "PeekReady"
  | .put => "Put"
  | .quit => "Quit"
  | .release => "Release"
  | .reserve => "Reserve"
  | .reserveJob => "ReserveJob"
  | .reserveWithTimeout => "ReserveWithTimeout"
  | .stats => "Stats"
  | .statsJob => "StatsJob"
  | .statsTube => "StatsTube"
  | .touch => "Touch"
  | .use => "Use"
  | .watch => "Watch"

/-- The constants between `Unknown` and `Max`. -/
def CmdType.commands : List CmdType :=
  [.bury, .delete, .ignore, .kick, .kickJob, .listTubes, .listTubeUser, .pauseTube, .peek,
    .peekBuried, .peekDelayed, .peekReady, .put, .quit, .release, .reserve, .reserveJob,
    .reserveWithTimeout, .stats, .statsJob, .statsTube, .touch, .use, .watch]

/-- Lower case, with a hyphen before each capital letter but the first. -/
def kebabCase (s : String) : Bytes :=
  match s.toList with
  | [] => []
  | first :: rest =>
      let lower (ch : Char) : UInt8 := UInt8.ofNat ch.toLower.toNat
      lower first :: rest.flatMap fun ch => if ch.isUpper then [45, lower ch] else [lower ch]

def commandTypeStrings : List (Bytes × CmdType) :=
  CmdType.commands.map fun c => (kebabCase c.string, c)

inductive CmdErr where
  | badFormat
  | jobSizeTooBig
  | cmdTokensMissing
  | cmdNotFound
  deriving DecidableEq, Repr

/-- A parsed command. -/
structure CmdData where
  cmdType : CmdType
  args : Bytes := []
  data : Option Bytes := none
  needData : Bool := false
  deriving DecidableEq, Repr

/-- The class `\s`: tab, newline, form feed, carriage return and blank. -/
def isSpace (b : UInt8) : Bool :=
  b == 9 || b == 10 || b == 12 || b == 13 || b == 32

/-- What `spaceRe` leaves of the bytes after a run of white space: a run of two or
more is removed, and so is a run at the end. -/
def removeSpaces (run : Bytes) : Bytes → Bytes
  | [] => []
  | b :: rest =>
      if isSpace b then removeSpaces (run ++ [b]) rest
      else (if run.length = 1 then run else []) ++ b :: removeSpaces [] rest

/-- `splitRe.Split(s, 2)`. -/
def splitTokens (s : Bytes) : List Bytes :=
  match s.dropWhile fun b => !isSpace b with
  | [] => [s]
  | _ :: rest => [s.takeWhile fun b => !isSpace b, rest]

/-! ## Arguments -/

def isDigit (b : UInt8) : Bool :=
  48 ≤ b && b ≤ 57

/-- The groups of a regular expression of `count` numerals with one blank between each
two of them. -/
def matchNumerals (count : Nat) (args : Bytes) : Option (List Bytes) :=
  let groups := args.splitOn 32
  if groups.length = count ∧ ∀ group ∈ groups, group ≠ [] ∧ group.all isDigit then some groups
  else none

def numeralValue (digits : Bytes) : Nat :=
  digits.foldl (fun value digit => 10 * value + (digit.toNat - 48)) 0

/-- `strconv.ParseUint` on a numeral, whose errors are all answered alike. -/
def parseUint (bits : Nat) (digits : Bytes) : Except CmdErr Nat :=
  if numeralValue digits < 2 ^ bits then .ok (numeralValue digits) else .error .badFormat

/-- `strconv.ParseInt` for 64 bits, and `strconv.Atoi`, on a numeral. -/
def parseInt (digits : Bytes) : Except CmdErr Int64 :=
  if numeralValue digits < 2 ^ 63 then .ok (Int64.ofNat (numeralValue digits))
  else .error .badFormat

structure PutArg where
  pri : UInt32
  delay : Int64
  ttr : Int64
  size : Int64
  data : Option Bytes
  deriving DecidableEq, Repr

structure BuryArg where
  id : JobID
  pri : UInt32
  deriving DecidableEq, Repr

structure ReleaseArg where
  id : JobID
  pri : UInt32
  delay : Int64
  deriving DecidableEq, Repr

/-- `put <pri> <delay> <ttr> <bytes>`. -/
def newPutArg (data : CmdData) : Except CmdErr PutArg :=
  match matchNumerals 4 data.args with
  | some [pri, delay, ttr, bytes] => do
      let pri ← parseUint 32 pri
      let delay ← parseInt delay
      let ttr ← parseInt ttr
      let size ← parseInt bytes
      return { pri := UInt32.ofNat pri, delay, ttr, size, data := data.data }
  | _ => .error .badFormat

/-- The bytes that a tube name may start with. -/
def isTubeStart (b : UInt8) : Bool :=
  97 ≤ b && b ≤ 122 || 65 ≤ b && b ≤ 90 || isDigit b || (text "+/;.$_()").contains b

/-- `watch <tube>`, `ignore <tube>`, `use <tube>`. -/
def newTubeArg (data : CmdData) : Except CmdErr TubeName :=
  match data.args with
  | [] => .error .badFormat
  | first :: rest =>
      if isTubeStart first && rest.length ≤ 199 && rest.all (fun b => isTubeStart b || b == 45)
      then .ok data.args
      else .error .badFormat

/-- `delete <id>`, `kick-job <id>`. -/
def newIDArg (data : CmdData) : Except CmdErr JobID :=
  match matchNumerals 1 data.args with
  | some [id] => return UInt64.ofNat (← parseUint 64 id)
  | _ => .error .badFormat

/-- `reserve-with-timeout <seconds>`. -/
def newReserveWithTimeoutArg (data : CmdData) : Except CmdErr Int64 :=
  match matchNumerals 1 data.args with
  | some [seconds] => parseInt seconds
  | _ => .error .badFormat

/-- `bury <id> <pri>`. -/
def newBuryArg (data : CmdData) : Except CmdErr BuryArg :=
  match matchNumerals 2 data.args with
  | some [id, pri] => do
      let id ← parseUint 64 id
      let pri ← parseUint 32 pri
      return { id := UInt64.ofNat id, pri := UInt32.ofNat pri }
  | _ => .error .badFormat

/-- `kick <bound>`. -/
def newKickNArg (data : CmdData) : Except CmdErr Int64 :=
  match matchNumerals 1 data.args with
  | some [bound] => parseInt bound
  | _ => .error .badFormat

/-- `release <id> <pri> <delay>`. -/
def newReleaseArg (data : CmdData) : Except CmdErr ReleaseArg :=
  match matchNumerals 3 data.args with
  | some [id, pri, delay] => do
      let id ← parseUint 64 id
      let pri ← parseUint 32 pri
      let delay ← parseInt delay
      return { id := UInt64.ofNat id, pri := UInt32.ofNat pri, delay }
  | _ => .error .badFormat

/-! ## Commands -/

def parseCommandLine (cmdLine : Bytes) (maxJobDataSizeBytes : Int) : Except CmdErr CmdData :=
  let tokens := splitTokens (removeSpaces [] cmdLine)
  if tokens = [[]] then .error .cmdTokensMissing
  else
    match commandTypeStrings.lookup (tokens.headD []) with
    | none => .error .cmdNotFound
    | some c =>
        let cd : CmdData := { cmdType := c, args := tokens.tail.headD [] }
        if c = .put then
          let cd := { cd with data := some [], needData := true }
          match newPutArg cd with
          | .error err => .error err
          | .ok arg =>
              if arg.size.toInt > maxJobDataSizeBytes then .error .jobSizeTooBig else .ok cd
        else .ok cd

/-- The argument of a request. -/
inductive CmdArg where
  | none
  | put (arg : PutArg)
  | tube (tubeName : TubeName)
  | id (id : JobID)
  | reserveWithTimeout (timeoutSeconds : Int64)
  | bury (arg : BuryArg)
  | kickN (bound : Int64)
  | release (arg : ReleaseArg)
  deriving DecidableEq, Repr

/-- The argument that `NewCmdRequest` makes for a command. -/
def newCmdArg (cmdData : CmdData) : Except CmdErr CmdArg :=
  match cmdData.cmdType with
  | .bury => CmdArg.bury <$> newBuryArg cmdData
  | .delete | .kickJob => CmdArg.id <$> newIDArg cmdData
  | .kick => CmdArg.kickN <$> newKickNArg cmdData
  | .put => CmdArg.put <$> newPutArg cmdData
  | .peek => CmdArg.id <$> newIDArg cmdData
  | .ignore | .use | .watch => CmdArg.tube <$> newTubeArg cmdData
  | .release => CmdArg.release <$> newReleaseArg cmdData
  | .reserveWithTimeout => CmdArg.reserveWithTimeout <$> newReserveWithTimeoutArg cmdData
  | .touch => CmdArg.id <$> newIDArg cmdData
  | .statsJob => CmdArg.id <$> newIDArg cmdData
  | .statsTube => CmdArg.tube <$> newTubeArg cmdData
  | .listTubes | .peekReady | .peekDelayed | .peekBuried | .quit | .reserve | .stats => .ok .none
  | _ => .error .cmdNotFound

/-- A command requested by a client. -/
structure CmdRequest where
  id : ReqID
  clientID : ClientID
  cmdType : CmdType
  cmd : CmdArg
  deriving DecidableEq, Repr

/-- `NewCmdRequest`; `id` is the unique identifier that it draws. -/
def newCmdRequest (id : ReqID) (cmdData : CmdData) (clientID : ClientID) :
    Except CmdErr CmdRequest :=
  (fun cmd => { id, clientID, cmdType := cmdData.cmdType, cmd }) <$> newCmdArg cmdData

/-! ## What an accepted command line holds -/

/-- The command is the one the first token names and the arguments are the rest of the
line.  Only a put waits for data; its arguments are parsed before it does, and its size is
within the limit. -/
theorem parseCommandLine_eq_ok {cmdLine : Bytes} {maxJobDataSizeBytes : Int} {cmd : CmdData}
    (parsed : parseCommandLine cmdLine maxJobDataSizeBytes = .ok cmd) :
    let tokens := splitTokens (removeSpaces [] cmdLine)
    commandTypeStrings.lookup (tokens.headD []) = some cmd.cmdType ∧
      cmd.args = tokens.tail.headD [] ∧
      ((cmd.cmdType ≠ .put ∧ cmd.needData = false) ∨
        (cmd.cmdType = .put ∧ cmd.needData = true ∧
          ∃ arg, newPutArg cmd = .ok arg ∧ arg.size.toInt ≤ maxJobDataSizeBytes)) := by
  unfold parseCommandLine at parsed
  dsimp only at parsed ⊢
  split at parsed
  case isTrue => simp at parsed
  case isFalse =>
    split at parsed
    case h_1 => simp at parsed
    case h_2 c found =>
      split at parsed
      case isFalse other =>
        obtain rfl := Except.ok.inj parsed
        exact ⟨found, rfl, .inl ⟨other, rfl⟩⟩
      case isTrue isPut =>
        split at parsed
        case h_1 => simp at parsed
        case h_2 arg accepted =>
          split at parsed
          case isTrue => simp at parsed
          case isFalse fits =>
            obtain rfl := Except.ok.inj parsed
            exact ⟨found, rfl, .inr ⟨isPut, rfl, arg, accepted, by omega⟩⟩

theorem parseCommandLine_ok {cmdLine : Bytes} {maxJobDataSizeBytes : Int} {cmd : CmdData}
    (parsed : parseCommandLine cmdLine maxJobDataSizeBytes = .ok cmd) :
    (cmd.cmdType ≠ .put ∧ cmd.needData = false) ∨
      (cmd.cmdType = .put ∧ cmd.needData = true ∧
        ∃ arg, newPutArg cmd = .ok arg ∧ arg.size.toInt ≤ maxJobDataSizeBytes) :=
  (parseCommandLine_eq_ok parsed).2.2

theorem bind_eq_ok {ε α β : Type} {action : Except ε α} {next : α → Except ε β} {result : β}
    (returns : action >>= next = .ok result) :
    ∃ value, action = .ok value ∧ next value = .ok result := by
  cases action with
  | error err => cases returns
  | ok value => exact ⟨value, rfl, returns⟩

/-- The arguments of a put do not depend on the bytes that follow its line. -/
theorem newPutArg_withData {cmd : CmdData} {arg : PutArg} (accepted : newPutArg cmd = .ok arg)
    (data : Option Bytes) : newPutArg { cmd with data } = .ok { arg with data } := by
  unfold newPutArg at accepted ⊢
  split at accepted
  case h_1 pri delay ttr bytes groups =>
    obtain ⟨priValue, priParsed, accepted⟩ := bind_eq_ok accepted
    obtain ⟨delayValue, delayParsed, accepted⟩ := bind_eq_ok accepted
    obtain ⟨ttrValue, ttrParsed, accepted⟩ := bind_eq_ok accepted
    obtain ⟨sizeValue, sizeParsed, accepted⟩ := bind_eq_ok accepted
    obtain rfl := Except.ok.inj accepted
    simp only [groups, priParsed, delayParsed, ttrParsed, sizeParsed]
    rfl
  case h_2 => simp at accepted

end Coolbeans
