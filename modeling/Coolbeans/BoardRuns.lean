import Coolbeans.BoardTick

/-!
# Runs follow the rules of the board

Every operation of a sound state machine does on the board what the rules say.  The rules know
nothing of heaps, clocks and addresses, so whatever holds of every run of the board holds of the
state machine.
-/

namespace Coolbeans

open FiniteMap PositionHeap SortedListing StatefulProgram

/-- The operations that look up the buried jobs of a tube. -/
def Op.readsBuried : Op → Bool
  | .peekBuriedJob _ | .kickN _ _ => true
  | _ => false

/-- The operations that follow the rules: a job is touched by its owner, deadlines are inner
clocks, no tube is listed twice, and the buried jobs of a tube are looked up only if no buried job
is deleted. -/
structure Board.Regular (buriedKept : Prop) (board : Board) (op : Op) : Prop where
  touchesOwn : ∀ nowSeconds id clientID, op = .touch nowSeconds id clientID →
    ∀ job, board.jobs id = some job → job.OwnedBy clientID → job.reservedBy = clientID
  deadline : op.DeadlineBounded
  expiry : ∀ clock, op.reservesAt? = some clock → ∀ id job, board.jobs id = some job →
    InnerClock (clock + job.ttr)
  tubes : op.TubesNodup
  reads : op.readsBuried = true → buriedKept
  deletes : buriedKept → ∀ id clientID, op = .delete id clientID →
    ∀ job, board.jobs id = some job → job.state ≠ .buried

/-- The heaps are exact, but for the buried heaps if buried jobs are deleted. -/
def Kinds.onBoard (buriedKept : Prop) : Kinds where
  exact kind := kind = .buried → buriedKept
  held _ := True
  held_of_exact _ _ := trivial
  held_buried := trivial

theorem Kinds.onBoard_strong (buriedKept : Prop) : (Kinds.onBoard buriedKept).Strong := by
  constructor <;> simp [Kinds.onBoard]

/-- The containers agree and the timers are early. -/
structure MachineOk (buriedKept : Prop) (jsm : JSM) : Prop where
  containers : ContainersOk (.onBoard buriedKept) jsm
  delay : DelayTimerOk jsm
  clocks : ClocksOk InnerClock jsm

section Regular

variable {buriedKept : Prop} {jsm : JSM} {op : Op}

theorem Board.Regular.timely (regular : jsm.board.Regular buriedKept op) : Timely jsm op where
  touchesOwn := by
    cases op with
    | touch nowSeconds id clientID =>
        intro record recorded owned
        exact regular.touchesOwn nowSeconds id clientID rfl record.plain
          (by simp [JSM.board, recorded]) owned
    | _ => trivial
  deadline := regular.deadline
  expiry := by
    intro clock reserves id record recorded
    exact regular.expiry clock reserves id record.plain (by simp [JSM.board, recorded])

theorem Board.Regular.deletesNoBuried (regular : jsm.board.Regular buriedKept op)
    (kept : buriedKept) : DeletesNoBuried jsm op := by
  cases op with
  | delete id clientID =>
      intro record recorded
      exact regular.deletes kept id clientID rfl record.plain (by simp [JSM.board, recorded])
  | _ => trivial

theorem JSM.board_regular_iff : jsm.board.Regular buriedKept op ↔
    Timely jsm op ∧ op.TubesNodup ∧ (op.readsBuried = true → buriedKept) ∧
      (buriedKept → DeletesNoBuried jsm op) := by
  constructor
  · intro regular
    exact ⟨regular.timely, regular.tubes, regular.reads, regular.deletesNoBuried⟩
  · rintro ⟨timely, tubes, reads, deletes⟩
    refine ⟨?_, timely.deadline, ?_, tubes, reads, ?_⟩
    · rintro nowSeconds id clientID rfl job shown owned
      obtain ⟨record, recorded, rfl⟩ := Option.map_eq_some_iff.mp shown
      exact timely.touchesOwn record recorded owned
    · intro clock reserves id job shown
      obtain ⟨record, recorded, rfl⟩ := Option.map_eq_some_iff.mp shown
      exact timely.expiry clock reserves id record recorded
    · rintro kept id clientID rfl job shown
      obtain ⟨record, recorded, rfl⟩ := Option.map_eq_some_iff.mp shown
      exact deletes kept record recorded

instance (jsm : JSM) : DecidablePred (DeletesNoBuried jsm)
  | .delete jobID _ =>
      inferInstanceAs (Decidable (∀ record ∈ jsm.recordOf jobID, record.state ≠ .buried))
  | .put .. | .getJob _ | .peekDelayedJob _ | .peekReadyJob _ | .peekBuriedJob _ | .release ..
  | .releaseWith .. | .touch .. | .bury .. | .kick _ | .kickN .. | .appendReservation ..
  | .tick .. => isTrue trivial

instance [Decidable buriedKept] : Decidable (jsm.board.Regular buriedKept op) :=
  decidable_of_iff _ JSM.board_regular_iff.symm

end Regular

section Entries

variable {buriedKept : Prop} {board : Board} {op other : Op}

/-- How the tubes are walked does not matter for the rules. -/
theorem Board.Regular.of_entry (regular : board.Regular buriedKept op)
    (same : op.entry = other.entry) : board.Regular buriedKept other := by
  rcases Op.entry_cases same with rfl | ⟨now, walk, otherWalk, rfl, rfl⟩
  · exact regular
  · exact
      { touchesOwn := by rintro _ _ _ ⟨⟩
        deadline := trivial
        expiry := regular.expiry
        tubes := trivial
        reads := by rintro ⟨⟩
        deletes := by rintro _ _ _ ⟨⟩ }

end Entries

theorem admissible_regular (buriedKept : Prop) :
    Admissible (.onBoard buriedKept) fun jsm op => jsm.board.Regular buriedKept op where
  readyExact := (Kinds.onBoard_strong buriedKept).ready
  delayedExact := (Kinds.onBoard_strong buriedKept).delayed
  bounded := fun _ _ regular => regular.deadline
  touchesOwn := fun _ _ _ regular => regular.timely.touchesOwn
  deletesNoBuried := fun kept _ _ regular => regular.deletesNoBuried (kept rfl)

theorem machineOk_newJSM (buriedKept : Prop) : MachineOk buriedKept newJSM where
  containers := containersOk_newJSM
  delay := delayTimerOk_newJSM
  clocks := timersOk_newJSM.clocks

/-! ## One operation -/

section Step

variable {buriedKept : Prop} {jsm : JSM} {op : Op}

theorem MachineOk.of_effect (ok : MachineOk buriedKept jsm)
    (regular : jsm.board.Regular buriedKept op) {answer : Answer} {after : JSM}
    (effect : Effect (.onBoard buriedKept) jsm op answer after) : MachineOk buriedKept after where
  containers := effect.containersOk ok.containers
  delay := effect.delayTimerOk ok.delay
  clocks := effect.clocksOk ok.containers (Kinds.onBoard_strong buriedKept).ready
    (Kinds.onBoard_strong buriedKept).reserved (fun _ inner => inner.2) (fun _ inner => inner.1)
    regular.timely.expiry regular.timely.touchesOwn ok.clocks

/-- A command that does what the board does takes one of its steps. -/
theorem ends_step_of_command {α : Type} {program : JSMProg α} {reply : α → Reply}
    {result : Answer × Board} {panics : Prop} (command : jsm.board.command op = some result)
    (shows : Shows (program jsm) reply result panics) :
    ((reply <$> program) jsm).Ends
      (fun value after => jsm.board.Step op (.ok value.plain) after.board)
      (fun error after => jsm.board.Step op (.error error) after.board) panics := by
  apply Prog.ends_map
  apply Outcome.Ends.mono shows
  · rintro value after rfl
    exact .command command
  · rintro error after rfl
    exact .command command
  · exact id

/-- A lookup of the first job of a heap takes a step of the board. -/
theorem ends_step_of_peek {key : HeapKey} (inv : JobsOk (.onBoard buriedKept) jsm)
    (isKind : Kinds.onBoard buriedKept key.kind)
    (command : jsm.board.command op = some (jsm.board.peek key)) :
    ((do
      let entry ← peekAt key
      Prog.gets fun jsm => Reply.job (jsm.jobOf entry) : JSMProg Reply) jsm).Ends
      (fun reply after => jsm.board.Step op (.ok reply.plain) after.board)
      (fun error after => jsm.board.Step op (.error error) after.board) False := by
  apply Outcome.Ends.mono (ends_peek_board inv key isKind)
  · intro reply after peeks
    exact .command (peeks ▸ command)
  · intro error after peeks
    exact .command (peeks ▸ command)
  · exact id

/-- Every operation takes a step of the board, and none panics. -/
theorem MachineOk.ends_run (ok : MachineOk buriedKept jsm)
    (regular : jsm.board.Regular buriedKept op) :
    (op.run jsm).Ends (fun reply after => jsm.board.Step op (.ok reply.plain) after.board)
      (fun error after => jsm.board.Step op (.error error) after.board) False := by
  have strong := Kinds.onBoard_strong buriedKept
  have jobs := ok.containers.jobs
  cases op with
  | put nowSeconds priority delay ttr bodySize body tubeName =>
      exact ends_step_of_command rfl
        (ends_put_board jobs nowSeconds priority delay ttr bodySize body tubeName)
  | delete id clientID =>
      have notBuried : Kinds.onBoard buriedKept .buried →
          DeletesNoBuried jsm (.delete id clientID) :=
        fun kept => regular.deletesNoBuried (kept rfl)
      exact ends_step_of_command rfl (ends_delete_board strong jobs clientID notBuried)
  | getJob id => exact ends_step_of_command rfl (ends_getJob_board id)
  | peekDelayedJob tubeName => exact ends_step_of_peek jobs strong.delayed rfl
  | peekReadyJob tubeName => exact ends_step_of_peek jobs strong.ready rfl
  | peekBuriedJob tubeName => exact ends_step_of_peek jobs (fun _ => regular.reads rfl) rfl
  | release id clientID =>
      exact ends_step_of_command rfl (ends_release_board strong jobs 0 false)
  | releaseWith nowSeconds id clientID pri delay =>
      exact ends_step_of_command rfl (ends_releaseWith_board strong jobs nowSeconds pri delay)
  | touch nowSeconds id clientID =>
      exact ends_step_of_command rfl (ends_touch_board strong ok.containers ok.clocks.owners
        nowSeconds regular.timely.touchesOwn)
  | bury nowSeconds id priority clientID =>
      exact ends_step_of_command rfl (ends_bury_board strong jobs nowSeconds priority)
  | kick id => exact ends_step_of_command rfl (ends_kick_board jobs)
  | kickN tubeName n =>
      exact ends_step_of_command rfl (ends_kickLoop_board (fun _ => regular.reads rfl) jobs
        tubeName n.toInt.toNat 0)
  | appendReservation clientID reqID watchedTubes nowSecs deadline =>
      apply ends_step_of_command rfl
      apply Outcome.Ends.mono
        (ends_appendReservation_board strong ok.containers regular.deadline)
      · exact fun _ _ appends => appends
      · exact fun _ _ refuses => refuses
      · exact fun twice => twice regular.tubes
  | tick now walk =>
      apply Prog.ends_map
      apply (ends_tick jobs ok.containers.clients strong.ready strong.delayed walk).mono
      · rintro resvs after ⟨matched, processed, answers, woken, served, done, rfl⟩
        exact done.board_step strong ok.containers ok.delay ok.clocks regular.timely.expiry
      · exact fun _ _ => False.elim
      · exact fun inexact => inexact strong.reserved

/-- What a step of the state machine shows on the board, and what it keeps. -/
theorem MachineOk.of_steps (ok : MachineOk buriedKept jsm)
    (regular : jsm.board.Regular buriedKept op) {answer : Answer} {after : JSM}
    (steps : op.Steps jsm answer after) :
    MachineOk buriedKept after ∧ jsm.board.Step op answer.plain after.board := by
  constructor
  · exact ok.of_effect regular ((admissible_regular buriedKept).effect ok.containers regular steps)
  · exact steps.meets (fun answer after => jsm.board.Step op answer.plain after.board)
      (ok.ends_run regular)

theorem MachineOk.responds (ok : MachineOk buriedKept jsm)
    (regular : jsm.board.Regular buriedKept op) : ∃ answer after, op.Steps jsm answer after :=
  Op.exists_steps (ok.ends_run regular) id

end Step

/-! ## Runs -/

/-- The board at the start. -/
def Board.empty : Board where
  jobs _ := none
  lastID := 0
  requests _ := none
  lines _ := []

theorem board_newJSM : newJSM.board = Board.empty := by
  ext1 <;> rfl

/-- A run of the board: the operations it takes, and their answers. -/
inductive Board.Run : List (Op × Answer) → Board → Prop where
  | nil : Run [] .empty
  | snoc {events : List (Op × Answer)} {before after : Board} {op : Op} {answer : Answer}
      (run : Run events before) (steps : before.Step op answer after) :
      Run (events ++ [(op, answer)]) after

/-- An event as the board shows it. -/
def shownEvent (event : Op × Answer) : Op × Answer :=
  (event.1, event.2.plain)

section Runs

variable {buriedKept : Prop} {events : List (Op × Answer)} {jsm : JSM}

theorem machineOk_of_run
    (run : Run (fun jsm op => jsm.board.Regular buriedKept op) newJSM events jsm) :
    MachineOk buriedKept jsm :=
  run.invariant (fun _ _ _ _ ok regular steps => (ok.of_steps regular steps).1)
    (machineOk_newJSM buriedKept)

theorem boardRun_of_run
    (run : Run (fun jsm op => jsm.board.Regular buriedKept op) newJSM events jsm) :
    Board.Run (events.map shownEvent) jsm.board := by
  induction run with
  | nil =>
      rw [board_newJSM]
      exact .nil
  | snoc run regular steps induction =>
      have ok := machineOk_of_run run
      rw [List.map_append]
      exact .snoc induction (ok.of_steps regular steps).2

/-- The state machine refines the board: every run shows as a run of the board, and every regular
operation is answered as one of the rules says. -/
theorem run_refines_board
    (run : Run (fun jsm op => jsm.board.Regular buriedKept op) newJSM events jsm) :
    Board.Run (events.map shownEvent) jsm.board ∧
      ∀ op, jsm.board.Regular buriedKept op →
        ∃ answer after, op.Steps jsm answer after ∧
          jsm.board.Step op answer.plain after.board := by
  refine ⟨boardRun_of_run run, fun op regular => ?_⟩
  have ok := machineOk_of_run run
  obtain ⟨answer, after, steps⟩ := ok.responds regular
  exact ⟨answer, after, steps, (ok.of_steps regular steps).2⟩

/-- A run in which a job is delayed, another one reserved and buried, and a third one handed to
a client in line. -/
def busyTube : List Op :=
  [.put 10 5 30 60 0 none [1], .put 10 5 0 60 0 none [1], .appendReservation [7] [1] [[1]] 11 20,
    .bury 12 2 4 [7], .appendReservation [8] [2] [[2], [1]] 13 90, .put 14 3 0 60 0 none [2],
    .tick 15 .inOrder, .peekBuriedJob [1], .kickN [1] 5, .tick 80 .inOrder]

theorem run_refines_board_busyTube :
    (history busyTube newJSM).length = 10 ∧
      Board.Run ((history busyTube newJSM).map shownEvent) (stateAfter busyTube).board := by
  have run : Run (fun jsm op => jsm.board.Regular True op) newJSM (history busyTube newJSM)
      (stateAfter busyTube) := run_history busyTube (by decide +kernel) (by decide +kernel)
  exact ⟨by decide +kernel, (run_refines_board run).1⟩

end Runs

end Coolbeans
