import Coolbeans.ExclusiveLease
import Coolbeans.JobIdentity
import Coolbeans.JobLifeCycle
import Coolbeans.RequestLedger

/-!
# What is handed out is what was put

Seen from outside, the queue is a dictionary: a put enters a job under its id, a delete strikes it
out, and nothing else does either.  What happens to a job in between leaves its data alone, so
every job that a client is handed is one that was put and not deleted yet, as it was put.
-/

namespace Coolbeans

open LifeCycle Relation StatefulProgram

/-- What an event does to the dictionary of the jobs. -/
def enter (jobs : JobID → Option Job) : Op × Answer → JobID → Option Job
  | (.put nowSeconds priority delay ttr bodySize body tubeName, .ok (.jobID id)) =>
      Function.update jobs id
        (some (.initial id nowSeconds priority delay ttr bodySize body tubeName))
  | (.delete id _, .ok .done) => Function.update jobs id none
  | _ => jobs

/-- The jobs that were put and not deleted, as they were put. -/
def dictionary (events : List (Op × Answer)) : JobID → Option Job :=
  events.foldl enter fun _ => none

/-- The dictionary has the jobs of the index, in whatever states they are there. -/
def Enlisted (jobs : JobID → Option Job) (jsm : JSM) : Prop :=
  ∀ id, Option.Rel SameJob (jobs id) (jsm.recordOf id)

section Jobs

variable {kinds : Kinds} {before after : JSM} {op : Op} {answer : Answer}
  {jobs : JobID → Option Job}

/-- Only a put or a delete changes which jobs there are. -/
theorem Enlisted.of_moves (lists : Enlisted jobs before)
    (moves : ReflTransGen (Moves op) before after) (notPut : op.isPut = false)
    (notDelete : ∀ id clientID, op ≠ .delete id clientID) : Enlisted jobs after := by
  intro id
  have listed := lists id
  cases present : before.recordOf id with
  | some record =>
      rcases same_or_deleted moves present with ⟨next, isNext, same⟩ | ⟨_, clientID, deletes⟩
      · rw [present] at listed
        rw [isNext]
        generalize jobs id = job at listed
        cases listed with
        | some first => exact .some (first.trans same)
      · exact absurd deletes (notDelete id clientID)
  | none =>
      rw [present] at listed
      rw [(absent_or_put moves present).resolve_right (by simp [notPut])]
      exact listed

/-- An operation does to the jobs what its event does to the dictionary. -/
theorem Effect.enters (effect : Effect kinds before op answer after)
    (held : kinds.held .reserved) (moves : ReflTransGen (Moves op) before after)
    (lists : Enlisted jobs before) : Enlisted (enter jobs (op, answer)) after := by
  cases effect with
  | @refused _ error _ same =>
      have unchanged : enter jobs (op, .error error) = jobs := by cases op <;> rfl
      intro id
      rw [unchanged, same.recordOf]
      exact lists id
  | @looked _ record =>
      have unchanged : enter jobs (op, .ok (.job record)) = jobs := by cases op <;> rfl
      rwa [unchanged]
  | put _ _ records =>
      intro id
      simp only [enter, Function.update_apply, records]
      split
      next => exact .some (.updateState _ _)
      next => exact lists id
  | putTaken _ _ records =>
      intro id
      rw [records]
      exact lists id
  | deleted deleted allowed =>
      obtain ⟨rfl, _⟩ := allowed held
      intro id
      simp only [enter, Function.update_apply, deleted.records]
      split
      next => exact .none
      next => exact lists id
  | givenUp gives =>
      cases op with
      | release | releaseWith | bury => exact lists.of_moves moves rfl (by simp)
      | _ => cases gives
  | kicked | kickedSome | touched | touchedOrphan | appended | ticked =>
      exact lists.of_moves moves rfl (by simp)

theorem Enlisted.exists_first (lists : Enlisted jobs before) {id : JobID} {record : Job}
    (recorded : before.recordOf id = some record) :
    ∃ first, jobs id = some first ∧ SameJob first record := by
  have listed := lists id
  rw [recorded] at listed
  generalize jobs id = job at listed ⊢
  cases listed with
  | some same => exact ⟨_, rfl, same⟩

/-- What is handed out is a job of the index. -/
theorem Effect.record_of_matched (effect : Effect kinds before op answer after)
    (held : kinds.held .reserved) {resv : Reservation} (member : resv ∈ answer.matches) :
    ∃ record, before.recordOf resv.jobId = some record ∧ resv.bodySize = record.bodySize ∧
      resv.body = record.body := by
  cases effect with
  | @appended _ _ _ _ _ given cli _ _ _ appended =>
      obtain ⟨isGiven, isMatched⟩ := List.mem_filter.mp member
      obtain rfl := List.mem_singleton.mp isGiven
      rcases appended.outcome with ⟨rfl, _⟩ | ⟨_, _, entry, _, served, rfl⟩
      · cases isMatched
      · exact ⟨_, appended.asked.frame.recordOf ▸ served.was, rfl, rfl⟩
  | ticked done =>
      obtain ⟨inside, isMatched⟩ := List.mem_filter.mp member
      obtain ⟨_, _, _, record, recorded, _, _, sameData⟩ :=
        done.handsOver inside (of_decide_eq_true isMatched)
      exact ⟨record, recorded, sameData⟩
  | deleted _ allowed =>
      obtain ⟨rfl, _⟩ := allowed held
      cases member
  | @kickedSome _ _ answer _ _ counts =>
      cases answer with
      | error => cases member
      | ok reply =>
          obtain ⟨count, rfl⟩ := counts reply rfl
          cases member
  | _ => cases member

end Jobs

/-- The jobs are those that were put and not deleted, and whatever job a client is handed is one of
them, with the size and the body that it was put with. -/
theorem matches_as_put {events : List (Op × Answer)} {jsm : JSM}
    (run : Run WellCalled newJSM events jsm) :
    Enlisted (dictionary events) jsm ∧
      ∀ op answer after, WellCalled jsm op → op.Steps jsm answer after →
        ∀ resv ∈ answer.matches, ∃ first, dictionary events resv.jobId = some first ∧
          resv.bodySize = first.bodySize ∧ resv.body = first.body := by
  have enlisted : Enlisted (dictionary events) jsm := by
    induction run with
    | nil => exact fun _ => .none
    | snoc run called steps induction =>
        have ok := admissible_wellCalled.reachable ⟨_, run⟩
        have effect := admissible_wellCalled.effect ok called steps
        have moves := (along_of_steps (jobsOk_anyRun_of_reachable ⟨_, run⟩) steps).moves
        unfold dictionary
        rw [List.foldl_append]
        exact effect.enters trivial moves induction
  refine ⟨enlisted, ?_⟩
  intro op answer after called steps resv member
  have ok := admissible_wellCalled.reachable ⟨_, run⟩
  have effect := admissible_wellCalled.effect ok called steps
  obtain ⟨record, recorded, sameSize, sameBody⟩ := effect.record_of_matched trivial member
  obtain ⟨first, isFirst, same⟩ := enlisted.exists_first recorded
  exact ⟨first, isFirst, sameSize.trans same.bodySize, sameBody.trans same.body⟩

/-- Of two jobs the better one is deleted. -/
def oneDeleted : List Op :=
  [.put 10 5 0 60 2 (some [104, 105]) [1], .put 10 4 0 60 1 (some [33]) [1], .delete 2 [8]]

theorem matches_as_put_oneDeleted :
    ∃ answer after, oneRequest.Steps (stateAfter oneDeleted) answer after ∧
      ∃ resv ∈ answer.matches, ∃ first, resv.jobId = 1 ∧
        dictionary (history oneDeleted newJSM) 1 = some first ∧
        resv.bodySize = first.bodySize ∧ resv.body = first.body := by
  have proper : ∀ op ∈ oneRequest :: oneDeleted, op.clientID? ≠ some [] ∧ op.Proper := by decide
  obtain ⟨called, others⟩ := List.forall_mem_cons.mp proper
  have run : Run WellCalled newJSM (history oneDeleted newJSM) (stateAfter oneDeleted) :=
    run_history _ (admitted_of_forall (fun op member _ => others op member) _) (by decide +kernel)
  obtain ⟨answer, after, steps⟩ :=
    returns_of_wellCalled (admissible_wellCalled.reachable ⟨_, run⟩) called
  have isFirst : ∀ answer ∈ (oneRequest.run (stateAfter oneDeleted)).reply?,
      ∃ resv ∈ Answer.matches answer, resv.jobId = 1 := by decide +kernel
  obtain ⟨resv, member, isOne⟩ := isFirst answer steps.1
  obtain ⟨first, entered, sameData⟩ := (matches_as_put run).2 _ _ _ called steps resv member
  exact ⟨answer, after, steps, resv, member, first, isOne, isOne ▸ entered, sameData⟩

end Coolbeans
