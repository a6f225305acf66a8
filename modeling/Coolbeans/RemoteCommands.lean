import Coolbeans.ArgumentGrammars
import Coolbeans.ClusterNode
import Coolbeans.ExactContainers
import Coolbeans.JobRestore

/-!
# Commands through a proxy

`proxy.Client` offers the interface of the state machine to the command processor of a
proxy: it writes the arguments of a call into a request, and the cluster applies the
request to the replicated state machine.  What a command on jobs does there is what the
same call does on a local state machine, once the integers of the call are cut down to the
widths of the message.  The two paths agree on a command if, and only if, its integers fit
these widths.
-/

namespace Coolbeans

open FiniteMap StatefulProgram

/-! ## The proxy -/

namespace Proxy

variable (proxyID : ProxyID) (nowSecs : Int64)

/-- `Put` of the proxy; the clock is the one of the node that takes the request. -/
def put (priority : UInt32) (delay ttr bodySize : Int64) (body : Option Bytes)
    (tubeName : TubeName) : FsmProg JobID := do
  let r ← fsmApply nowSecs (.put
    { priority
      delay
      ttr := ttr.toInt32
      tubeName
      bodySize := bodySize.toInt32
      body })
  pure r.jobId.toUInt64

def delete (jobID : JobID) (clientID : ClientID) : FsmProg Unit :=
  fsmApply nowSecs (.delete { jobId := jobID.toInt64, proxyId := proxyID, clientId := clientID })

def bury (jobID : JobID) (priority : UInt32) (clientID : ClientID) : FsmProg Unit :=
  fsmApply nowSecs (.bury
    { jobId := jobID.toInt64
      priority
      clientId := clientID
      proxyId := proxyID })

def kick (jobID : JobID) : FsmProg Unit :=
  fsmApply nowSecs (.kick { jobId := jobID.toInt64 })

def kickN (name : TubeName) (n : Int64) : FsmProg Int64 := do
  let resp ← fsmApply nowSecs (.kickN { tubeName := name, bound := n.toInt32 })
  pure resp.jobsKicked.toInt64

def touch (jobID : JobID) (clientID : ClientID) : FsmProg Unit :=
  fsmApply nowSecs (.touch { jobId := jobID.toInt64, clientId := clientID, proxyId := proxyID })

def releaseWith (jobID : JobID) (clientID : ClientID) (pri : UInt32) (delay : Int64) :
    FsmProg Unit :=
  fsmApply nowSecs (.release
    { jobId := jobID.toInt64
      clientId := clientID
      proxyId := proxyID
      delay
      priority := pri })

end Proxy

/-! ## Commands -/

/-- The commands on jobs, with the tube that their client uses where they read it. -/
inductive JobCommand where
  | put (arg : PutArg) (useTube : TubeName)
  | bury (arg : BuryArg)
  | release (arg : ReleaseArg)
  | touch (id : JobID)
  | delete (id : JobID)
  | kickJob (id : JobID)
  | kick (bound : Int64) (useTube : TubeName)
  deriving DecidableEq, Repr

/-- The command on jobs that a request asks for, if it does. -/
def CmdRequest.jobCommand? (req : CmdRequest) (useTube : TubeName) : Option JobCommand :=
  match req.cmdType, req.cmd with
  | .put, .put arg => some (.put arg useTube)
  | .bury, .bury arg => some (.bury arg)
  | .release, .release arg => some (.release arg)
  | .touch, .id id => some (.touch id)
  | .delete, .id id => some (.delete id)
  | .kickJob, .id id => some (.kickJob id)
  | .kick, .kickN bound => some (.kick bound useTube)
  | _, _ => none

namespace JobCommand

/-- The call that a command makes on a local state machine. -/
def op (clientID : ClientID) (nowSecs : Int64) : JobCommand → Op
  | .put arg useTube => .put nowSecs arg.pri arg.delay arg.ttr arg.size arg.data useTube
  | .bury arg => .bury nowSecs arg.id arg.pri clientID
  | .release arg => .releaseWith nowSecs arg.id clientID arg.pri arg.delay
  | .touch id => .touch nowSecs id clientID
  | .delete id => .delete id clientID
  | .kickJob id => .kick id
  | .kick bound useTube => .kickN useTube bound

/-- The call that a command makes on a proxy. -/
def remote (cu : ClientURI) (nowSecs : Int64) : JobCommand → FsmProg Reply
  | .put arg useTube =>
      .jobID <$> Proxy.put nowSecs arg.pri arg.delay arg.ttr arg.size arg.data useTube
  | .bury arg => (fun _ => .done) <$> Proxy.bury cu.proxyID nowSecs arg.id arg.pri cu.clientID
  | .release arg =>
      (fun _ => .done) <$>
        Proxy.releaseWith cu.proxyID nowSecs arg.id cu.clientID arg.pri arg.delay
  | .touch id => (fun _ => .done) <$> Proxy.touch cu.proxyID nowSecs id cu.clientID
  | .delete id => (fun _ => .done) <$> Proxy.delete cu.proxyID nowSecs id cu.clientID
  | .kickJob id => (fun _ => .done) <$> Proxy.kick nowSecs id
  | .kick bound useTube => .count <$> Proxy.kickN nowSecs useTube bound

/-- A command with its integers cut down to the widths of the messages. -/
def narrow : JobCommand → JobCommand
  | .put arg useTube =>
      .put { arg with ttr := arg.ttr.toInt32.toInt64, size := arg.size.toInt32.toInt64 } useTube
  | .kick bound useTube => .kick bound.toInt32.toInt64 useTube
  | command => command

/-- The integers of a command fit the widths of the messages. -/
def Fits : JobCommand → Prop
  | .put arg _ => arg.ttr.toInt < 2 ^ 31 ∧ arg.size.toInt < 2 ^ 31
  | .kick bound _ => bound.toInt < 2 ^ 31
  | _ => True

instance (command : JobCommand) : Decidable command.Fits :=
  match command with
  | .put arg _ => inferInstanceAs (Decidable (arg.ttr.toInt < 2 ^ 31 ∧ arg.size.toInt < 2 ^ 31))
  | .kick bound _ => inferInstanceAs (Decidable (bound.toInt < 2 ^ 31))
  | .bury _ | .release _ | .touch _ | .delete _ | .kickJob _ => isTrue trivial

/-- The integers of a command that the parser reads are not negative. -/
def NonNegative : JobCommand → Prop
  | .put arg _ => 0 ≤ arg.ttr.toInt ∧ 0 ≤ arg.size.toInt
  | .kick bound _ => 0 ≤ bound.toInt
  | _ => True

end JobCommand

/-! ## Integers of two widths -/

theorem toInt_toInt32_range (n : Int64) :
    -2 ^ 31 ≤ n.toInt32.toInt64.toInt ∧ n.toInt32.toInt64.toInt < 2 ^ 31 := by
  rw [Int32.toInt_toInt64]
  exact ⟨Int32.le_toInt _, Int32.toInt_lt _⟩

theorem toInt64_toInt32_eq_iff {n : Int64} (nonNegative : 0 ≤ n.toInt) :
    n.toInt32.toInt64 = n ↔ n.toInt < 2 ^ 31 := by
  constructor
  · intro same
    rw [← same]
    exact (toInt_toInt32_range n).2
  · intro upper
    apply toInt64_toInt32_of_range _ upper
    omega

theorem JobCommand.narrow_eq_of_fits {command : JobCommand} (nonNegative : command.NonNegative)
    (fits : command.Fits) : command.narrow = command := by
  cases command with
  | put arg useTube =>
      obtain ⟨ttr, size⟩ := nonNegative
      simp only [narrow, (toInt64_toInt32_eq_iff ttr).mpr fits.1,
        (toInt64_toInt32_eq_iff size).mpr fits.2]
  | kick bound useTube =>
      simp only [narrow, (toInt64_toInt32_eq_iff nonNegative).mpr fits]
  | bury | release | touch | delete | kickJob => rfl

/-! ## What the parser accepts -/

theorem nonNegative_of_newPutArg {cmdData : CmdData} {arg : PutArg}
    (parsed : newPutArg cmdData = .ok arg) : 0 ≤ arg.ttr.toInt ∧ 0 ≤ arg.size.toInt := by
  have nonneg := decodesGroups_newPutArg.nonneg (by simp) parsed
  exact ⟨nonneg _ (by simp [PutArg.fields]), nonneg _ (by simp [PutArg.fields])⟩

theorem nonNegative_of_newKickNArg {cmdData : CmdData} {bound : Int64}
    (parsed : newKickNArg cmdData = .ok bound) : 0 ≤ bound.toInt :=
  decodesGroups_newKickNArg.nonneg (by simp) parsed _ (by simp)

theorem arg_of_newCmdArg {cmdData : CmdData} {cmd : CmdArg}
    (parsed : newCmdArg cmdData = .ok cmd) :
    (∀ arg, cmd = .put arg → newPutArg cmdData = .ok arg) ∧
      ∀ bound, cmd = .kickN bound → newKickNArg cmdData = .ok bound := by
  unfold newCmdArg at parsed
  constructor
  all_goals
    rintro arg rfl
    split at parsed
    all_goals try cases parsed
    all_goals
      obtain ⟨_, isArg, same⟩ := bind_eq_ok parsed
      cases same
    all_goals exact isArg

theorem JobCommand.nonNegative_of_newCmdRequest {id : ReqID} {cmdData : CmdData}
    {clientID : ClientID} {req : CmdRequest} {useTube : TubeName} {command : JobCommand}
    (accepted : newCmdRequest id cmdData clientID = .ok req)
    (isCommand : req.jobCommand? useTube = some command) : command.NonNegative := by
  obtain ⟨cmd, parsed, made⟩ := bind_eq_ok accepted
  cases made
  unfold CmdRequest.jobCommand? at isCommand
  split at isCommand
  case h_1 arg _ isArg =>
    cases isCommand
    dsimp only at isArg
    subst cmd
    exact nonNegative_of_newPutArg ((arg_of_newCmdArg parsed).1 arg rfl)
  case h_7 bound _ isArg =>
    cases isCommand
    dsimp only at isArg
    subst cmd
    exact nonNegative_of_newKickNArg ((arg_of_newCmdArg parsed).2 bound rfl)
  all_goals
    cases isCommand
    try trivial

/-! ## Counting kicks -/

theorem toInt_add_one {count : Int64} (lower : 0 ≤ count.toInt)
    (upper : count.toInt + 1 < 2 ^ 63) : (count + 1).toInt = count.toInt + 1 := by
  rw [Int64.toInt_add, Int64.toInt_one]
  apply Int.bmod_eq_of_le <;> omega

/-- The loop kicks one job a round at most. -/
theorem kickLoop_count (tubeName : TubeName) (rounds : Nat) (count : Int64) (jsm : JSM)
    (lower : 0 ≤ count.toInt) (upper : count.toInt + rounds < 2 ^ 63) :
    (kickLoop tubeName rounds count jsm).Ends
      (fun total _ => 0 ≤ total.toInt ∧ total.toInt ≤ count.toInt + rounds)
      (fun _ _ => True) True := by
  induction rounds generalizing count jsm with
  | zero =>
      refine ⟨lower, ?_⟩
      omega
  | succ rounds induction =>
      cases head : (jsm.heapAt (.buried tubeName)).head? with
      | none =>
          rw [kickLoop_of_none head]
          refine ⟨lower, ?_⟩
          omega
      | some entry =>
          rw [kickLoop_of_some head, Prog.bind_apply]
          cases kick (jsm.jobOf entry).id jsm with
          | ok _ after =>
              have next : (count + 1).toInt = count.toInt + 1 := by
                apply toInt_add_one lower
                omega
              have rest := induction (count + 1) after (by omega) (by omega)
              apply rest.mono _ (fun _ _ holds => holds) (fun holds => holds)
              intro total _ bounds
              omega
          | err error after => trivial
          | panic cause => trivial

/-- What a bound of 32 bits kicks can be told in 32 bits. -/
theorem kickN_narrow (tubeName : TubeName) (n : Int64) (jsm : JSM) :
    (kickN tubeName n.toInt32.toInt64 jsm).Ends
      (fun total _ => total.toInt32.toInt64 = total) (fun _ _ => True) True := by
  have range := toInt_toInt32_range n
  have counts := kickLoop_count tubeName n.toInt32.toInt64.toInt.toNat 0 jsm
    (by rw [Int64.toInt_zero]) (by rw [Int64.toInt_zero]; omega)
  apply counts.mono _ (fun _ _ holds => holds) (fun holds => holds)
  intro total _ bounds
  rw [Int64.toInt_zero] at bounds
  apply toInt64_toInt32_of_range <;> omega

/-! ## The two paths -/

theorem requireURI_new (cu : ClientURI) :
    requireURI (ClientURI.new cu.proxyID cu.clientID) = pure cu := by
  rw [ClientURI.new_eq]
  rfl

/-- The remote path of a command is the local path of the command cut down. -/
theorem JobCommand.remote_eq (command : JobCommand) (cu : ClientURI) (nowSecs : Int64) :
    command.remote cu nowSecs =
      Prog.mapErr .jsm (command.narrow.op cu.toClientID nowSecs).run := by
  cases command with
  | put arg useTube =>
      funext jsm
      simp only [remote, Proxy.put, fsmApply, applyPut, narrow, op, Op.run, ← Prog.map_mapErr,
        Prog.map_apply, Prog.bind_apply]
      cases Prog.mapErr ApplyErr.jsm _ jsm <;> simp
  | kick bound useTube =>
      funext jsm
      simp only [remote, Proxy.kickN, fsmApply, applyKickN, narrow, op, Op.run, Prog.map_apply,
        Prog.bind_apply, Prog.mapErr]
      have told := kickN_narrow useTube bound jsm
      cases ends : kickN useTube bound.toInt32.toInt64 jsm with
      | ok total after =>
          rw [ends, Outcome.ends_ok] at told
          simp only [Outcome.mapErr, Outcome.ok_andThen, Prog.pure_apply, told]
          rfl
      | err error after => rfl
      | panic cause => rfl
  | kickJob id =>
      simp only [remote, Proxy.kick, fsmApply, applyKick, narrow, op, Op.run, Prog.map_mapErr,
        UInt64.toUInt64_toInt64]
  | bury arg =>
      simp only [remote, Proxy.bury, fsmApply, applyBury, requireURI_new, Prog.pure_andThen,
        narrow, op, Op.run, Prog.map_mapErr, UInt64.toUInt64_toInt64]
  | release arg =>
      simp only [remote, Proxy.releaseWith, fsmApply, applyRelease, requireURI_new,
        Prog.pure_andThen, narrow, op, Op.run, Prog.map_mapErr, UInt64.toUInt64_toInt64]
  | touch id =>
      simp only [remote, Proxy.touch, fsmApply, applyTouch, requireURI_new, Prog.pure_andThen,
        narrow, op, Op.run, Prog.map_mapErr, UInt64.toUInt64_toInt64]
  | delete id =>
      simp only [remote, Proxy.delete, fsmApply, applyDelete, requireURI_new, Prog.pure_andThen,
        narrow, op, Op.run, Prog.map_mapErr, UInt64.toUInt64_toInt64]

/-- The two paths of a command do the same in every state, at every clock. -/
def JobCommand.Refines (command : JobCommand) (cu : ClientURI) : Prop :=
  ∀ nowSecs jsm, command.remote cu nowSecs jsm =
    ((command.op cu.toClientID nowSecs).run jsm).mapErr .jsm

theorem mapErr_jsm_injective {α : Type} {first second : Outcome JSM Err Panic α}
    (same : first.mapErr ApplyErr.jsm = second.mapErr ApplyErr.jsm) : first = second := by
  cases first <;> cases second <;> simp_all [Outcome.mapErr]

theorem JobCommand.Refines.run_eq {command : JobCommand} {cu : ClientURI}
    (refines : command.Refines cu) (nowSecs : Int64) (jsm : JSM) :
    (command.narrow.op cu.toClientID nowSecs).run jsm =
      (command.op cu.toClientID nowSecs).run jsm := by
  apply mapErr_jsm_injective
  rw [← refines nowSecs jsm, command.remote_eq]
  rfl

/-! ### Telling the paths apart -/

theorem recordOf_put_newJSM (nowSecs : Int64) (arg : PutArg) (useTube : TubeName) :
    ∃ after, put nowSecs arg.pri arg.delay arg.ttr arg.size arg.data useTube newJSM =
        .ok 1 after ∧
      ∃ record, after.recordOf 1 = some record ∧ record.ttr = arg.ttr ∧
        record.bodySize = arg.size := by
  have ends := ends_put (jobsOk_newJSM .all) nowSecs arg.pri arg.delay arg.ttr arg.size arg.data
    useTube
  have returns := ends.mono (fun _ _ holds => holds) (fun _ _ fails => fails.1 rfl)
    (fun holds => holds)
  obtain ⟨id, after, runs, isFirst, _, _, records⟩ := returns.returns
  obtain rfl : id = 1 := isFirst
  refine ⟨after, runs, _, (records 1).trans (if_pos rfl), ?_⟩
  simp [Job.initial]

theorem JobCommand.Refines.fits_put {arg : PutArg} {useTube : TubeName} {cu : ClientURI}
    (nonNegative : (JobCommand.put arg useTube).NonNegative)
    (refines : (JobCommand.put arg useTube).Refines cu) :
    (JobCommand.put arg useTube).Fits := by
  have same := refines.run_eq 0 newJSM
  obtain ⟨after, runs, record, recorded, ttr, size⟩ := recordOf_put_newJSM 0 arg useTube
  obtain ⟨cutAfter, cutRuns, cutRecord, cutRecorded, cutTtr, cutSize⟩ := recordOf_put_newJSM 0
    { arg with ttr := arg.ttr.toInt32.toInt64, size := arg.size.toInt32.toInt64 } useTube
  simp only [narrow, op, Op.run, Prog.map_apply] at same
  rw [runs, cutRuns] at same
  cases same
  rw [recorded] at cutRecorded
  cases cutRecorded
  exact ⟨(toInt64_toInt32_eq_iff nonNegative.1).mp (cutTtr.symm.trans ttr),
    (toInt64_toInt32_eq_iff nonNegative.2).mp (cutSize.symm.trans size)⟩

/-- A buried job, as a snapshot holds it. -/
def buriedProto (tubeName : TubeName) (id : Nat) : JobProto where
  id := Int64.ofNat id
  priority := 0
  delay := 0
  ttr := 1
  tubeName
  createdAt := 0
  readyAt := 0
  expiresAt := 0
  state := .buried
  reservedBy := []
  bodySize := 0
  body := none
  buriedAt := 0
  reserveCount := 0
  timeoutCount := 0
  releaseCount := 0
  buryCount := 0
  kickCount := 0

theorem noJobs_newJSM : NoJobs newJSM where
  heapAt := fun key => by cases key <;> rfl
  lookup := fun _ => rfl
  maxJobID := rfl

/-- A tube can hold any number of buried jobs, as long as there are ids for them. -/
theorem exists_buried (tubeName : TubeName) (size : Nat) (small : size ≤ 2 ^ 63) :
    ∃ jsm, JobsOk .all jsm ∧ size ≤ (jsm.heapAt (.buried tubeName)).length := by
  let records := ((List.range size).map (buriedProto tubeName)).map newJobFromJobProto
  have ids : (records.map (·.id)).Nodup := by
    simp only [records, List.map_map]
    apply List.nodup_range.map_on
    intro first firstMember second secondMember same
    have sameInt := congrArg (fun id : JobID => id.toInt64.toInt) same
    rw [List.mem_range] at firstMember secondMember
    simp only [Function.comp, newJobFromJobProto, buriedProto, Int64.toInt64_toUInt64] at sameInt
    rw [Int64.toInt_ofNat_of_lt (by omega), Int64.toInt_ofNat_of_lt (by omega)] at sameInt
    omega
  have homes : ∀ record ∈ records, record.home = some (.buried tubeName) := by
    intro record member
    simp only [records, List.map_map, List.mem_map] at member
    obtain ⟨id, _, rfl⟩ := member
    rfl
  obtain ⟨jsm, _, restored⟩ := restoreJobs_returns noJobs_newJSM ids
    fun record member => ⟨_, homes record member⟩
  refine ⟨jsm, restored.inv, ?_⟩
  have onHeap : records ⊆ (jsm.heapAt (.buried tubeName)).map jsm.jobOf := by
    intro record member
    have recorded : jsm.recordOf record.id = some record := by
      rw [restored.recordOf]
      exact find_id_of_nodup ids member
    obtain ⟨entry, inside, isRecord⟩ := restored.inv.exists_entry recorded (homes record member)
      trivial
    exact List.mem_map.mpr ⟨entry, inside, isRecord⟩
  have counted := (List.subperm_of_subset (List.Nodup.of_map _ ids) onHeap).length_le
  simpa [records] using counted

theorem JobCommand.Refines.fits_kick {bound : Int64} {useTube : TubeName} {cu : ClientURI}
    (refines : (JobCommand.kick bound useTube).Refines cu) :
    (JobCommand.kick bound useTube).Fits := by
  obtain ⟨jsm, inv, many⟩ := exists_buried useTube (2 ^ 31) (by omega)
  have same := refines.run_eq 0 jsm
  obtain ⟨after, runs⟩ := kickN_returns inv trivial useTube bound
  obtain ⟨cutAfter, cutRuns⟩ := kickN_returns inv trivial useTube bound.toInt32.toInt64
  simp only [narrow, op, Op.run, Prog.map_apply] at same
  rw [runs, cutRuns] at same
  have range := toInt_toInt32_range bound
  have boundRange := bound.toInt_lt
  injection same with sameReply
  injection sameReply with sameCount
  have sameInt := congrArg Int64.toInt sameCount
  rw [Int64.toInt_ofNat_of_lt (by omega), Int64.toInt_ofNat_of_lt (by omega)] at sameInt
  change bound.toInt < 2 ^ 31
  omega

/-- The remote path of an accepted command refines its local path if, and only if, the time
to run and the size of a put and the bound of a kick are below `2 ^ 31`. -/
theorem JobCommand.refines_iff_fits {id : ReqID} {cmdData : CmdData} {clientID : ClientID}
    {req : CmdRequest} {useTube : TubeName} {command : JobCommand} (cu : ClientURI)
    (accepted : newCmdRequest id cmdData clientID = .ok req)
    (isCommand : req.jobCommand? useTube = some command) :
    command.Refines cu ↔ command.Fits := by
  have nonNegative := nonNegative_of_newCmdRequest accepted isCommand
  constructor
  · intro refines
    cases command with
    | put arg useTube => exact refines.fits_put nonNegative
    | kick bound useTube => exact refines.fits_kick
    | bury | release | touch | delete | kickJob => trivial
  · intro fits nowSecs jsm
    rw [command.remote_eq, narrow_eq_of_fits nonNegative fits]
    rfl

/-- The put of an empty job with a time to run, as the parser reads it. -/
def emptyPut (ttr : String) : CmdData where
  cmdType := .put
  args := text "0 0 " ++ text ttr ++ text " 0"
  data := some []
  needData := true

/-- A client of a proxy. -/
def someClient : ClientURI where
  proxyID := text "p"
  clientID := text "c"
  valid := by decide

theorem JobCommand.refines_iff_fits_emptyPut :
    (JobCommand.put ⟨0, 0, 60, 0, some []⟩ (text "default")).Refines someClient := by
  have accepted : newCmdRequest (text "1") (emptyPut "60") (text "c") =
      .ok ⟨text "1", text "c", .put, .put ⟨0, 0, 60, 0, some []⟩⟩ := by
    decide +kernel
  apply (refines_iff_fits someClient accepted rfl).mpr
  decide

/-- A put of a job with a time to run of `2 ^ 31` seconds: a local state machine makes a job
with this time, the cluster one with a negative time. -/
theorem put_ttr_cut :
    ∃ req, newCmdRequest (text "1") (emptyPut "2147483648") (text "c") = .ok req ∧
      ∃ command, req.jobCommand? (text "default") = some command ∧
        (((command.op someClient.toClientID 0).run newJSM).state?.bind
          (·.recordOf 1)).map (·.ttr) = some 2147483648 ∧
        ((command.remote someClient 0 newJSM).state?.bind
          (·.recordOf 1)).map (·.ttr) = some (-2147483648) := by
  refine ⟨_, rfl, _, rfl, ?_, ?_⟩
  · decide +kernel
  · decide +kernel

end Coolbeans
