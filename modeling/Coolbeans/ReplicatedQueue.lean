import Coolbeans.ReplicatedLog
import Coolbeans.RestoredBoard

/-!
# The replicated queue

Raft gives the operations to the state machines of all nodes in one order.  Each node walks the
tubes as it likes, at a pace of its own, takes snapshots, and is started again from nothing or from
a snapshot of another node.  What a node shows on the board is still determined by the part of the
log that it has applied, and each operation is answered alike on every node.
-/

namespace Coolbeans

open FiniteMap PositionHeap StatefulProgram

/-- The operations that are answered alike: they follow the rules of the board, and at a tick no
client can be served at two tubes. -/
structure Board.Allows (buriedKept : Prop) (board : Board) (op : Op) : Prop where
  regular : board.Regular buriedKept op
  apart : ∀ now walk, op = .tick now walk → board.Apart now

theorem Board.Allows.of_entry {buriedKept : Prop} {board : Board} {op other : Op}
    (allowed : board.Allows buriedKept op) (same : op.entry = other.entry) :
    board.Allows buriedKept other := by
  refine ⟨allowed.regular.of_entry same, ?_⟩
  rintro now walk rfl
  rcases Op.entry_cases same with rfl | ⟨_, otherWalk, _, rfl, ⟨⟩⟩
  · exact allowed.apart now walk rfl
  · exact allowed.apart now otherWalk rfl

/-- The clock of a tick. -/
def Op.tickAt? : Op → Option Int64
  | .tick now _ => some now
  | _ => none

/-- The operations that are answered alike, in terms of the state. -/
def Orderly (buriedKept : Prop) (jsm : JSM) (op : Op) : Prop :=
  jsm.board.Regular buriedKept op ∧ ∀ now ∈ op.tickAt?, jsm.ReachApart now

-- Named, since all of `Int64` could be searched instead of the one clock.
instance (buriedKept : Prop) [Decidable buriedKept] (jsm : JSM) (op : Op) :
    Decidable (Orderly buriedKept jsm op) :=
  @instDecidableAnd _ _ _ (Option.decidableForallMem op.tickAt?)

section Orderly

variable {buriedKept : Prop} {jsm start last : JSM} {events : List (Op × Answer)}

theorem MachineOk.apart (ok : MachineOk buriedKept jsm) {now : Int64}
    (apart : jsm.ReachApart now) : jsm.board.Apart now := by
  have strong := Kinds.onBoard_strong buriedKept
  obtain ⟨_, woken, _, done⟩ := ((ends_tickDelayStage ok.containers.jobs strong.delayed
    .inOrder).mono (fun _ _ holds => holds) (fun _ _ => False.elim) False.elim).returns
  exact done.apart strong.ready ok.delay ok.containers.clients apart

theorem allows_of_orderly (ok : MachineOk buriedKept jsm) {op : Op}
    (orderly : Orderly buriedKept jsm op) : jsm.board.Allows buriedKept op := by
  refine ⟨orderly.1, ?_⟩
  rintro now walk rfl
  exact ok.apart (orderly.2 now rfl)

theorem MachineOk.run_allows (ok : MachineOk buriedKept start)
    (run : Run (Orderly buriedKept) start events last) :
    MachineOk buriedKept last ∧
      Run (fun jsm op => jsm.board.Allows buriedKept op) start events last := by
  induction run with
  | nil => exact ⟨ok, .nil _⟩
  | snoc run orderly steps induction =>
      obtain ⟨beforeOk, allowedRun⟩ := induction
      exact ⟨(beforeOk.of_steps orderly.1 steps).1,
        allowedRun.snoc (allows_of_orderly beforeOk orderly) steps⟩

theorem map_fst_history {ops : List Op} (played : replay ops jsm = some last) :
    (history ops jsm).map Prod.fst = ops := by
  induction ops generalizing jsm with
  | nil => rfl
  | cons op ops induction =>
      obtain ⟨next, left, played⟩ := Option.bind_eq_some_iff.mp played
      obtain ⟨answer, steps⟩ := Op.steps_of_state left
      rw [history, steps.1, left, List.map_cons, induction played]

end Orderly

/-! ## State machines with the same board -/

section Twins

variable {buriedKept : Prop} {first second last otherLast : JSM}
  {events otherEvents : List (Op × Answer)}

/-- Two runs from the same board that take the same entries are answered alike and end at the same
board. -/
theorem MachineOk.runs_agree (ok : MachineOk buriedKept first)
    (otherOk : MachineOk buriedKept second) (sameBoard : second.board = first.board)
    (run : Run (fun jsm op => jsm.board.Allows buriedKept op) first events last)
    (otherRun : Run (fun _ _ => True) second otherEvents otherLast)
    (sameEntries : events.map (·.1.entry) = otherEvents.map (·.1.entry)) :
    MachineOk buriedKept last ∧ MachineOk buriedKept otherLast ∧
      otherLast.board = last.board ∧
      List.Forall₂ (fun event other => event.2.plain.Same other.2.plain) events otherEvents := by
  induction run generalizing otherEvents otherLast with
  | nil =>
      cases otherRun with
      | nil => exact ⟨ok, otherOk, sameBoard, .nil⟩
      | snoc => simp at sameEntries
  | @snoc before after events op answer run allowed steps induction =>
      cases otherRun with
      | nil => simp at sameEntries
      | snoc otherRun _ otherSteps =>
          rw [List.map_append, List.map_append] at sameEntries
          obtain ⟨sameEarlier, sameLast⟩ := List.append_inj' sameEntries rfl
          obtain ⟨beforeOk, otherBeforeOk, same, answered⟩ := induction otherRun sameEarlier
          have sameEntry := List.head_eq_of_cons_eq sameLast
          have otherAllowed := allowed.of_entry sameEntry
          obtain ⟨afterOk, step⟩ := beforeOk.of_steps allowed.regular steps
          obtain ⟨otherAfterOk, otherStep⟩ := otherBeforeOk.of_steps
            (same ▸ otherAllowed.regular) otherSteps
          rw [same] at otherStep
          obtain ⟨sameAnswer, sameAfter⟩ := step.determined otherStep sameEntry allowed.apart
          exact ⟨afterOk, otherAfterOk, sameAfter.symm,
            List.rel_append answered (.cons sameAnswer .nil)⟩

/-- A state machine that was restored from a snapshot cannot be told from the original: whatever
is asked of them later, they answer alike and show the same board. -/
theorem restore_transparent {origin target after : JSM} {walk : JobWalk}
    {earlier later otherLater : List (Op × Answer)}
    (past : Run (fun jsm op => jsm.board.Regular buriedKept op) newJSM earlier origin)
    (carried : origin.board.Carried)
    (timer : ∀ id job, origin.board.jobs id = some job → job.state = .delayed →
      target.nextDelayTickAt ≤ job.readyAt)
    (restores : restoreSnapshotTo (origin.newSnapshotFrom walk) target = .ok () after)
    (run : Run (fun jsm op => jsm.board.Allows buriedKept op) origin later last)
    (otherRun : Run (fun _ _ => True) after otherLater otherLast)
    (sameEntries : later.map (·.1.entry) = otherLater.map (·.1.entry)) :
    otherLast.board = last.board ∧
      List.Forall₂ (fun event other => event.2.plain.Same other.2.plain) later otherLater := by
  have ok := machineOk_of_run past
  have restoredOk := ok.of_restores carried restores timer
  have sameBoard := JSM.board_restored ok carried restores
  exact (ok.runs_agree restoredOk sameBoard run otherRun sameEntries).2.2

/-- A run after which one job is reserved, one is buried and one is ready. -/
def threeStates : List Op :=
  [.put 10 5 0 60 0 none [1], .put 10 5 0 60 0 none [1], .put 10 5 0 60 0 none [1],
    .appendReservation [7] [1] [[1]] 11 20, .bury 12 1 4 [7],
    .appendReservation [8] [2] [[1]] 13 20]

/-- What is asked later: the reservation expires, and the jobs are handed out again. -/
def askedLater : List Op :=
  [.kickN [1] 5, .tick 100 .inOrder, .appendReservation [7] [3] [[1]] 101 120]

theorem carried_threeStates : (stateAfter threeStates).board.Carried := by
  apply JSM.board_carried
  · intro id record recorded
    have checked := JSM.holds_of_recordOf (fun record => record.ttr = 60 ∧ record.bodySize = 0)
      (by decide +kernel) recorded
    rw [decide_eq_true_eq] at checked
    obtain ⟨ttr, bodySize⟩ := checked
    constructor
    · rw [ttr]
      decide
    · rw [bodySize]
      decide
  · decide +kernel
  · decide +kernel
  · decide +kernel

theorem undelayed_threeStates (id : JobID) (job : Job)
    (shown : (stateAfter threeStates).board.jobs id = some job) : job.state ≠ .delayed := by
  obtain ⟨record, recorded, rfl⟩ := JSM.record_of_board shown
  have checked := JSM.holds_of_recordOf (fun record => record.state ≠ .delayed) (by decide +kernel)
    recorded
  rw [decide_eq_true_eq] at checked
  exact checked

theorem restore_transparent_threeStates :
    ∃ after last otherLast,
      restoreSnapshotTo ((stateAfter threeStates).newSnapshotFrom .inOrder) newJSM = .ok () after ∧
      replay askedLater (stateAfter threeStates) = some last ∧
      replay askedLater after = some otherLast ∧ otherLast.board = last.board ∧
      List.Forall₂ (fun event other => event.2.plain.Same other.2.plain)
        (history askedLater (stateAfter threeStates)) (history askedLater after) := by
  have past : Run (fun jsm op => jsm.board.Regular True op) newJSM (history threeStates newJSM)
      (stateAfter threeStates) := run_history threeStates (by decide +kernel) (by decide +kernel)
  have ok := machineOk_of_run past
  obtain ⟨after, restores, _⟩ := restoreSnapshotTo_returns ok.containers (by decide +kernel)
    .inOrder newJSM
  have plays : (replay askedLater (stateAfter threeStates)).isSome = true := by decide +kernel
  obtain ⟨last, played⟩ := Option.isSome_iff_exists.mp plays
  have otherPlays : ((restoreSnapshotTo ((stateAfter threeStates).newSnapshotFrom .inOrder)
      newJSM).state?.bind (replay askedLater)).isSome = true := by decide +kernel
  rw [restores] at otherPlays
  obtain ⟨otherLast, otherPlayed⟩ := Option.isSome_iff_exists.mp otherPlays
  have admitted : Admitted (Orderly True) askedLater (stateAfter threeStates) := by decide +kernel
  have run := (ok.run_allows (run_replay admitted played)).2
  have otherRun : Run (fun _ _ => True) after (history askedLater after) otherLast :=
    run_replay (admitted_of_forall (by simp) _) otherPlayed
  refine ⟨after, last, otherLast, restores, played, otherPlayed, ?_⟩
  apply restore_transparent past carried_threeStates
    (fun id job shown isDelayed => absurd isDelayed (undelayed_threeStates id job shown)) restores
    run otherRun
  have entries := congrArg (List.map Op.entry)
    ((map_fst_history played).trans (map_fst_history otherPlayed).symm)
  rw [List.map_map, List.map_map] at entries
  exact entries

end Twins

/-! ## The cluster -/

/-- The state machine of a node, as Raft drives it.  An entry of the log does not say how the
tubes are walked. -/
def queueMachine : ReplicatedLog.Machine JSM Op Answer SnapshotProto where
  start := newJSM
  apply before entry answer after :=
    ∃ op : Op, op.entry = entry.entry ∧ op.Steps before answer after
  save jsm snapshot := ∃ walk, snapshot = jsm.newSnapshotFrom walk
  load snapshot before after := restoreSnapshotTo snapshot before = .ok () after

/-- A snapshot can be restored on every node: it leaves nothing out, and no job waits for the
delay timer, which a snapshot does not carry. -/
structure Board.Lossless (board : Board) : Prop extends Board.Carried board where
  undelayed : ∀ id job, board.jobs id = some job → job.state ≠ .delayed

/-- The board specifies the replicated queue. -/
def queueSpecification (buriedKept : Prop) :
    ReplicatedLog.Specification queueMachine Board where
  ok := MachineOk buriedKept
  view := JSM.board
  allows := Board.Allows buriedKept
  next seen entry answer after :=
    ∃ op : Op, op.entry = entry.entry ∧ seen.Step op answer.plain after
  same answer other := answer.plain.Same other.plain
  lossless := Board.Lossless
  means snapshot seen := seen.Lossless ∧ ∃ origin walk, MachineOk buriedKept origin ∧
    origin.board = seen ∧ snapshot = origin.newSnapshotFrom walk
  startOk := machineOk_newJSM buriedKept
  responds := by
    intro state entry ok allowed
    obtain ⟨answer, after, steps⟩ := ok.responds allowed.regular
    exact ⟨answer, after, entry, rfl, steps⟩
  applies := by
    rintro state entry answer after ok allowed ⟨op, sameEntry, steps⟩
    have regular := allowed.regular.of_entry sameEntry.symm
    obtain ⟨afterOk, step⟩ := ok.of_steps regular steps
    exact ⟨afterOk, op, sameEntry, step⟩
  saves := by
    rintro state snapshot ok lossless ⟨walk, rfl⟩
    exact ⟨lossless, state, walk, ok, rfl, rfl⟩
  loads := by
    rintro state seen snapshot after _ ⟨lossless, origin, walk, ok, rfl, rfl⟩ loads
    constructor
    · apply ok.of_restores lossless.toCarried loads
      intro id job shown isDelayed
      exact absurd isDelayed (lossless.undelayed id job shown)
    · exact JSM.board_restored ok lossless.toCarried loads
  determined := by
    rintro seen entry answer other after otherAfter allowed ⟨op, sameEntry, step⟩
      ⟨otherOp, otherSameEntry, otherStep⟩
    apply step.determined otherStep (sameEntry.trans otherSameEntry.symm)
    exact (allowed.of_entry sameEntry.symm).apart

section Cluster

open ReplicatedLog

variable {ρ : Type} [DecidableEq ρ] {buriedKept : Prop}
  {cluster : Cluster ρ JSM Op Answer SnapshotProto}

/-- The operations of an orderly run are a log that is allowed. -/
theorem leads_of_run {jsm : JSM} {events : List (Op × Answer)}
    (run : Run (Orderly buriedKept) newJSM events jsm) :
    (queueSpecification buriedKept).Leads (events.map Prod.fst) jsm.board := by
  induction run with
  | nil => exact .nil
  | snoc run orderly steps induction =>
      have ok := ((machineOk_newJSM buriedKept).run_allows run).1
      rw [List.map_append]
      exact .snoc induction (allows_of_orderly ok orderly)
        ⟨_, rfl, (ok.of_steps orderly.1 steps).2⟩

/-- Nodes that have applied equally many entries show the same board, and an entry is answered
alike wherever it is applied. -/
theorem nodes_agree (reachable : ReplicatedLog.Reachable queueMachine cluster)
    (proper : (queueSpecification buriedKept).Proper cluster) :
    (∀ node other, cluster.applied node = cluster.applied other →
      (cluster.state node).board = (cluster.state other).board) ∧
      ∀ index answer other, (index, answer) ∈ cluster.answers → (index, other) ∈ cluster.answers →
        answer.plain.Same other.plain := by
  constructor
  · intro node other level
    exact reachable.view_eq (queueSpecification buriedKept) proper level
  · intro index answer other answered otherAnswered
    exact reachable.answers_same (queueSpecification buriedKept) proper answered otherAnswered

/-- The log of a busy tube is allowed. -/
theorem leads_busyTube : ∃ last, (queueSpecification True).Leads busyTube last := by
  have plays : (replay busyTube newJSM).isSome = true := by decide +kernel
  obtain ⟨last, played⟩ := Option.isSome_iff_exists.mp plays
  have admitted : Admitted (Orderly True) busyTube newJSM := by decide +kernel
  have leads := leads_of_run (run_replay admitted played)
  rw [map_fst_history played] at leads
  exact ⟨last.board, leads⟩

omit [DecidableEq ρ] in
theorem proper_busyTube {cluster : Cluster ρ JSM Op Answer SnapshotProto}
    (log : cluster.log = busyTube) (snapshots : cluster.snapshots = []) :
    (queueSpecification True).Proper cluster := by
  constructor
  · rw [log]
    exact leads_busyTube
  · simp [snapshots]

/-- Two nodes apply the log of a busy tube. -/
theorem nodes_agree_busyTube :
    ∃ cluster : Cluster Bool JSM Op Answer SnapshotProto,
      ReplicatedLog.Reachable queueMachine cluster ∧ cluster.log = busyTube ∧
      cluster.applied true = 10 ∧ cluster.applied false = 10 ∧
      (cluster.state true).board = (cluster.state false).board := by
  have committed : ReplicatedLog.Reachable queueMachine
      { (queueMachine.cluster : Cluster Bool JSM Op Answer SnapshotProto) with log := busyTube } :=
    .commits queueMachine busyTube
  obtain ⟨middle, leads, log, snapshots, first, _⟩ := committed.catchesUp (queueSpecification True)
    (proper_busyTube rfl rfl) true
  have middleReachable := committed.steps leads
  obtain ⟨last, lastLeads, lastLog, lastSnapshots, second, others⟩ := middleReachable.catchesUp
    (queueSpecification True) (proper_busyTube log snapshots) false
  have lastReachable := middleReachable.steps lastLeads
  have proper := proper_busyTube (lastLog.trans log) (lastSnapshots.trans snapshots)
  have firstLevel : last.applied true = 10 := (others true (by decide)).trans first
  have secondLevel : last.applied false = 10 := by
    rw [second, log]
    rfl
  exact ⟨last, lastReachable, lastLog.trans log, firstLevel, secondLevel,
    (nodes_agree lastReachable proper).1 true false (firstLevel.trans secondLevel.symm)⟩

/-- A node that lags behind, even one that has just been started, can catch up with the log, and
then it shows the board of all who have. -/
theorem node_catchesUp (reachable : ReplicatedLog.Reachable queueMachine cluster)
    (proper : (queueSpecification buriedKept).Proper cluster) (node : ρ) :
    ∃ later, Relation.ReflTransGen (Step queueMachine) cluster later ∧
      later.log = cluster.log ∧ later.applied node = cluster.log.length ∧
      ∀ other, later.applied other = cluster.log.length →
        (later.state node).board = (later.state other).board := by
  obtain ⟨later, leads, sameLog, sameSnapshots, caughtUp, _⟩ :=
    reachable.catchesUp (queueSpecification buriedKept) proper node
  refine ⟨later, leads, sameLog, caughtUp, ?_⟩
  intro other level
  have laterProper : (queueSpecification buriedKept).Proper later := by
    constructor
    · rw [sameLog]
      exact proper.log
    · rw [sameLog, sameSnapshots]
      exact proper.snapshots
  exact (reachable.steps leads).view_eq (queueSpecification buriedKept) laterProper
    (caughtUp.trans level.symm)

theorem node_catchesUp_busyTube :
    ∃ later : Cluster Bool JSM Op Answer SnapshotProto,
      ReplicatedLog.Reachable queueMachine later ∧ later.applied true = busyTube.length ∧
      ∀ other, later.applied other = busyTube.length →
        (later.state true).board = (later.state other).board := by
  have committed : ReplicatedLog.Reachable queueMachine
      { (queueMachine.cluster : Cluster Bool JSM Op Answer SnapshotProto) with log := busyTube } :=
    .commits queueMachine busyTube
  obtain ⟨later, leads, _, caughtUp, agree⟩ :=
    node_catchesUp committed (proper_busyTube rfl rfl) true
  exact ⟨later, committed.steps leads, caughtUp, agree⟩

end Cluster

end Coolbeans
