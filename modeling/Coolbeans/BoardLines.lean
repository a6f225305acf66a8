import Coolbeans.BoardRuns

/-!
# Who stands in line where

Everybody in a line has an open request.  If no request names two tubes, nobody stands in two
lines; then the order in which a tick visits the tubes cannot matter.
-/

namespace Coolbeans

open FiniteMap PositionHeap SortedListing StatefulProgram

/-- The operation asks for a reservation at one tube at most. -/
def Op.SingleTube : Op → Prop
  | .appendReservation _ _ watchedTubes _ _ => watchedTubes.length ≤ 1
  | _ => True

instance : DecidablePred Op.SingleTube
  | .appendReservation _ _ watchedTubes _ _ => inferInstanceAs (Decidable (watchedTubes.length ≤ 1))
  | .put .. | .delete .. | .getJob _ | .peekDelayedJob _ | .peekReadyJob _ | .peekBuriedJob _
  | .release .. | .releaseWith .. | .touch .. | .bury .. | .kick _ | .kickN .. | .tick .. =>
      isTrue trivial

theorem Run.admitted_of_mem {admits : JSM → Op → Prop} {holds : Op → Prop} {start last : JSM}
    {events : List (Op × Answer)} (run : Run admits start events last)
    (implies : ∀ jsm op, admits jsm op → holds op) : ∀ event ∈ events, holds event.1 := by
  induction run with
  | nil => simp
  | snoc run admitted steps induction =>
      intro event member
      rcases List.mem_append.mp member with earlier | isLast
      · exact induction event earlier
      · rw [List.mem_singleton.mp isLast]
        exact implies _ _ admitted

namespace Board

/-- Everybody in a line has an open request, and stands in no other line. -/
structure SingleLines (board : Board) : Prop where
  asked : ∀ tubeName, ∀ clientID ∈ board.lines tubeName, board.requests clientID ≠ none
  single : ∀ first second clientID, clientID ∈ board.lines first →
    clientID ∈ board.lines second → first = second

variable {board after : Board} {op : Op} {answer : Answer}

theorem SingleLines.congr (lines : board.SingleLines)
    (sameRequests : after.requests = board.requests) (sameLines : after.lines = board.lines) :
    after.SingleLines where
  asked := by
    rw [sameRequests, sameLines]
    exact lines.asked
  single := by
    rw [sameLines]
    exact lines.single

theorem SingleLines.settle (lines : board.SingleLines) (answered : ClientID → Bool) :
    (board.settle answered).SingleLines where
  asked := by
    intro tubeName clientID member
    obtain ⟨inLine, unanswered⟩ := List.mem_filter.mp member
    rw [Bool.not_eq_true'] at unanswered
    simp only [Board.settle, unanswered]
    exact lines.asked tubeName clientID inLine
  single := by
    intro first second clientID inFirst inSecond
    exact lines.single first second clientID (List.mem_of_mem_filter inFirst)
      (List.mem_of_mem_filter inSecond)

theorem onJob_lines (id : JobID) (choose : Job → Except Err (Option Job)) :
    (board.onJob id choose).2.requests = board.requests ∧
      (board.onJob id choose).2.lines = board.lines := by
  unfold onJob
  split
  next => exact ⟨rfl, rfl⟩
  next => split <;> exact ⟨rfl, rfl⟩

theorem kickFirst_lines (tubeName : TubeName) (bound : Nat) (count : Int64) (board : Board) :
    (kickFirst tubeName bound count board).2.requests = board.requests ∧
      (kickFirst tubeName bound count board).2.lines = board.lines := by
  induction bound generalizing count board with
  | zero => exact ⟨rfl, rfl⟩
  | succ bound induction =>
      unfold kickFirst
      split
      next => exact ⟨rfl, rfl⟩
      next job _ => exact induction (count + 1) (board.setJob job.id (some job.kicked))

theorem SingleLines.appendReservation (lines : board.SingleLines) (clientID : ClientID)
    (reqID : ReqID) {watchedTubes : List TubeName} (nowSecs deadline : Int64)
    (few : watchedTubes.length ≤ 1) :
    (board.appendReservation clientID reqID watchedTubes nowSecs deadline).2.SingleLines := by
  unfold Board.appendReservation
  split
  next => exact lines
  next =>
    split
    next => exact lines
    next unasked =>
      split
      next => exact lines.congr rfl rfl
      next =>
        have absent : ∀ tubeName, clientID ∉ board.lines tubeName := by
          intro tubeName inLine
          have asked := lines.asked tubeName clientID inLine
          rw [Option.isSome_iff_ne_none] at unasked
          exact unasked asked
        have alike : ∀ first ∈ watchedTubes, ∀ second ∈ watchedTubes, first = second := by
          cases watchedTubes with
          | nil => simp
          | cons tubeName rest =>
              have isNil : rest = [] := by simpa using few
              simp [isNil]
        have joined : ∀ tubeName other, other ∈ (if tubeName ∈ watchedTubes then
            board.lines tubeName ++ [clientID] else board.lines tubeName) →
            other ∈ board.lines tubeName ∨ other = clientID ∧ tubeName ∈ watchedTubes := by
          intro tubeName other member
          split at member
          next watched =>
            rcases List.mem_append.mp member with old | new
            · exact Or.inl old
            · exact Or.inr ⟨List.mem_singleton.mp new, watched⟩
          next => exact Or.inl member
        constructor
        · intro tubeName other member
          dsimp only at member ⊢
          rcases joined tubeName other member with old | ⟨rfl, _⟩
          · have different : other ≠ clientID := by
              rintro rfl
              exact absent tubeName old
            rw [Function.update_of_ne different]
            exact lines.asked tubeName other old
          · simp
        · intro first second other inFirst inSecond
          rcases joined first other inFirst with oldFirst | ⟨rfl, firstWatched⟩
          · rcases joined second other inSecond with oldSecond | ⟨rfl, _⟩
            · exact lines.single first second other oldFirst oldSecond
            · exact absurd oldFirst (absent first)
          · rcases joined second other inSecond with oldSecond | ⟨_, secondWatched⟩
            · exact absurd oldSecond (absent second)
            · exact alike first firstWatched second secondWatched

/-- No command changes a line but a request for a reservation. -/
theorem SingleLines.command (lines : board.SingleLines)
    (answers : board.command op = some (answer, after)) (single : op.SingleTube) :
    after.SingleLines := by
  have ofFrame : ∀ {result : Answer × Board}, some result = some (answer, after) →
      result.2.requests = board.requests ∧ result.2.lines = board.lines → after.SingleLines := by
    rintro result ⟨⟩ ⟨sameRequests, sameLines⟩
    exact lines.congr sameRequests sameLines
  cases op with
  | put nowSeconds priority delay ttr bodySize body tubeName =>
      apply ofFrame answers
      unfold Board.put
      dsimp only
      split <;> exact ⟨rfl, rfl⟩
  | getJob id =>
      apply ofFrame answers
      unfold Board.getJob
      split <;> exact ⟨rfl, rfl⟩
  | peekDelayedJob tubeName | peekReadyJob tubeName | peekBuriedJob tubeName =>
      apply ofFrame answers
      unfold Board.peek
      split <;> exact ⟨rfl, rfl⟩
  | kickN tubeName n => exact ofFrame answers (kickFirst_lines tubeName _ 0 board)
  | appendReservation clientID reqID watchedTubes nowSecs deadline =>
      have appended : board.appendReservation clientID reqID watchedTubes nowSecs deadline =
          (answer, after) := Option.some.inj answers
      have kept := lines.appendReservation clientID reqID nowSecs deadline single
      rw [appended] at kept
      exact kept
  | tick => cases answers
  | delete | release | releaseWith | touch | bury | kick => exact ofFrame answers (onJob_lines _ _)

theorem SingleLines.step (lines : board.SingleLines) (step : board.Step op answer after)
    (single : op.SingleTube) : after.SingleLines := by
  cases step with
  | command answers => exact lines.command answers single
  | @tick now walk order answers =>
      have handedOut : ((board.wake now).handOut now
          ((board.wake now).matching order)).SingleLines :=
        (SingleLines.settle (lines.congr rfl rfl : (board.wake now).SingleLines) _).congr rfl rfl
      have lapsed : (board.lapsed now order).SingleLines := handedOut.congr rfl rfl
      exact lapsed.settle _

theorem Run.singleLines {events : List (Op × Answer)} (run : Run events board)
    (single : ∀ event ∈ events, event.1.SingleTube) : board.SingleLines := by
  induction run with
  | nil => exact ⟨by simp [Board.empty], by simp [Board.empty]⟩
  | snoc run steps induction =>
      have earlier := induction fun event member => single event (List.mem_append_left _ member)
      exact earlier.step steps (single _ List.mem_concat_self)

theorem SingleLines.apart (lines : board.SingleLines) (now : Int64) : board.Apart now := by
  intro first second different clientID inFirst inSecond
  exact different (lines.single first second clientID (List.mem_of_mem_take inFirst)
    (List.mem_of_mem_take inSecond))

end Board

/-- If no request names two tubes, a tick does the same whichever way it walks the tubes. -/
theorem walks_agree_of_singleTubes {buriedKept : Prop} {events : List (Op × Answer)} {jsm : JSM}
    (run : Run (fun jsm op => jsm.board.Regular buriedKept op ∧ op.SingleTube) newJSM events jsm)
    {now : Int64} {walk : TubeWalk} (regular : jsm.board.Regular buriedKept (.tick now walk))
    (other : TubeWalk) :
    ∃ answer after otherAnswer otherAfter, (Op.tick now walk).Steps jsm answer after ∧
      (Op.tick now other).Steps jsm otherAnswer otherAfter ∧
      answer.plain.Same otherAnswer.plain ∧ after.board = otherAfter.board := by
  have regularRun := run.mono fun _ _ admitted => admitted.1
  have ok := machineOk_of_run regularRun
  have single : ∀ event ∈ events.map shownEvent, event.1.SingleTube := by
    intro event member
    obtain ⟨original, taken, rfl⟩ := List.mem_map.mp member
    exact run.admitted_of_mem (fun _ _ admitted => admitted.2) original taken
  have apart := ((boardRun_of_run regularRun).singleLines single).apart now
  have otherRegular : jsm.board.Regular buriedKept (.tick now other) := regular.of_entry rfl
  obtain ⟨answer, after, steps⟩ := ok.responds regular
  obtain ⟨otherAnswer, otherAfter, otherSteps⟩ := ok.responds otherRegular
  have step := (ok.of_steps regular steps).2
  have otherStep := (ok.of_steps otherRegular otherSteps).2
  obtain ⟨sameAnswer, sameBoard⟩ := step.determined otherStep rfl (by
    rintro _ _ ⟨⟩
    exact apart)
  exact ⟨answer, after, otherAnswer, otherAfter, steps, otherSteps, sameAnswer, sameBoard⟩

/-- Two clients wait at two tubes, and each of the tubes has got a job. -/
def oneEach : List Op :=
  [.appendReservation [7] [1] [[1]] 10 90, .appendReservation [8] [2] [[2]] 10 90,
    .put 11 5 0 60 0 none [1], .put 11 5 0 60 0 none [2]]

theorem walks_agree_oneEach :
    ∃ answer after otherAnswer otherAfter,
      (Op.tick 12 .inOrder).Steps (stateAfter oneEach) answer after ∧
      (Op.tick 12 (.startingAt [2])).Steps (stateAfter oneEach) otherAnswer otherAfter ∧
      answer.plain.Same otherAnswer.plain ∧ after.board = otherAfter.board :=
  walks_agree_of_singleTubes
    (@run_history (fun jsm op => jsm.board.Regular True op ∧ op.SingleTube) oneEach
      (by decide +kernel) (by decide +kernel))
    (by decide +kernel : (stateAfter oneEach).board.Regular True (.tick 12 .inOrder)) _

end Coolbeans
