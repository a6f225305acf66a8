import Coolbeans.Snapshot

/-!
# Operations and runs

The operations of the `JSM` interface as one type, and the runs that they
make.  A run stops at a panic: every state of a run is one that the process
lives to see.  The conditions that callers promise are a parameter of the run,
a predicate of the operation and of the state it is applied to.
-/

namespace Coolbeans

open StatefulProgram

/-- The operations of the interface `JSM`. -/
inductive Op where
  | put (nowSeconds : Int64) (priority : UInt32) (delay ttr bodySize : Int64)
      (body : Option Bytes) (tubeName : TubeName)
  | delete (jobID : JobID) (clientID : ClientID)
  | getJob (jobID : JobID)
  | peekDelayedJob (tubeName : TubeName)
  | peekReadyJob (tubeName : TubeName)
  | peekBuriedJob (tubeName : TubeName)
  | release (jobID : JobID) (clientID : ClientID)
  | releaseWith (nowSeconds : Int64) (jobID : JobID) (clientID : ClientID) (pri : UInt32)
      (delay : Int64)
  | touch (nowSeconds : Int64) (jobID : JobID) (clientID : ClientID)
  | bury (nowSeconds : Int64) (jobID : JobID) (priority : UInt32) (clientID : ClientID)
  | kick (jobID : JobID)
  | kickN (tubeName : TubeName) (n : Int64)
  | appendReservation (clientId : ClientID) (reqID : ReqID) (watchedTubes : List TubeName)
      (nowSecs resvDeadlineAt : Int64)
  | tick (nowSecs : Int64) (walk : TubeWalk)

/-- What an operation answers when it returns no error. -/
inductive Reply where
  | done
  | jobID (id : JobID)
  | job (record : Job)
  | count (n : Int64)
  | reservation (resv : Reservation)
  | reservations (resvs : List Reservation)
  deriving DecidableEq, Repr

/-- Run an operation. -/
def Op.run : Op → JSMProg Reply
  | .put nowSeconds priority delay ttr bodySize body tubeName =>
      Reply.jobID <$> Coolbeans.put nowSeconds priority delay ttr bodySize body tubeName
  | .delete jobID clientID => (fun _ => .done) <$> Coolbeans.delete jobID clientID
  | .getJob jobID => Reply.job <$> Coolbeans.getJob jobID
  | .peekDelayedJob tubeName => do
      let entry ← Coolbeans.peekDelayedJob tubeName
      Prog.gets fun jsm => .job (jsm.jobOf entry)
  | .peekReadyJob tubeName => do
      let entry ← Coolbeans.peekReadyJob tubeName
      Prog.gets fun jsm => .job (jsm.jobOf entry)
  | .peekBuriedJob tubeName => do
      let entry ← Coolbeans.peekBuriedJob tubeName
      Prog.gets fun jsm => .job (jsm.jobOf entry)
  | .release jobID clientID => (fun _ => .done) <$> Coolbeans.release jobID clientID
  | .releaseWith nowSeconds jobID clientID pri delay =>
      (fun _ => .done) <$> Coolbeans.releaseWith nowSeconds jobID clientID pri delay
  | .touch nowSeconds jobID clientID =>
      (fun _ => .done) <$> Coolbeans.touch nowSeconds jobID clientID
  | .bury nowSeconds jobID priority clientID =>
      (fun _ => .done) <$> Coolbeans.bury nowSeconds jobID priority clientID
  | .kick jobID => (fun _ => .done) <$> Coolbeans.kick jobID
  | .kickN tubeName n => Reply.count <$> Coolbeans.kickN tubeName n
  | .appendReservation clientId reqID watchedTubes nowSecs resvDeadlineAt =>
      Reply.reservation <$>
        Coolbeans.appendReservation clientId reqID watchedTubes nowSecs resvDeadlineAt
  | .tick nowSecs walk => Reply.reservations <$> Coolbeans.tick nowSecs walk

/-- What an operation answered. -/
abbrev Answer := Except Err Reply

/-- The operation, run on a state, answers and leaves a state behind. -/
def Op.Steps (op : Op) (before : JSM) (answer : Answer) (after : JSM) : Prop :=
  (op.run before).reply? = some answer ∧ (op.run before).state? = some after

theorem Op.Steps.of_ok {op : Op} {before after : JSM} {reply : Reply}
    (runs : op.run before = .ok reply after) : op.Steps before (.ok reply) after := by
  rw [Op.Steps, runs]
  exact ⟨rfl, rfl⟩

theorem Op.exists_steps {op : Op} {before : JSM} {onOk : Reply → JSM → Prop}
    {onErr : Err → JSM → Prop} {panics : Prop} (ends : (op.run before).Ends onOk onErr panics)
    (never : ¬ panics) : ∃ answer after, op.Steps before answer after := by
  cases outcome : op.run before with
  | ok reply after => exact ⟨.ok reply, after, .of_ok outcome⟩
  | err error after => exact ⟨.error error, after, by rw [outcome]; rfl, by rw [outcome]; rfl⟩
  | panic cause =>
      rw [outcome] at ends
      exact absurd ends never

def Op.isPut : Op → Bool
  | .put .. => true
  | _ => false

/-- A run: the operations it takes, which the states they are applied to admit,
and their answers. -/
inductive Run (admits : JSM → Op → Prop) : JSM → List (Op × Answer) → JSM → Prop where
  | nil (jsm : JSM) : Run admits jsm [] jsm
  | snoc {start before after : JSM} {events : List (Op × Answer)} {op : Op} {answer : Answer}
      (run : Run admits start events before) (admitted : admits before op)
      (steps : op.Steps before answer after) : Run admits start (events ++ [(op, answer)]) after

/-- The states that runs of a new state machine reach. -/
def Reachable (admits : JSM → Op → Prop) (jsm : JSM) : Prop :=
  ∃ events, Run admits newJSM events jsm

section Runs

variable {admits : JSM → Op → Prop}

/-- What each admitted step keeps, a run keeps. -/
theorem Run.invariant {invariant : JSM → Prop} {start last : JSM} {events : List (Op × Answer)}
    (run : Run admits start events last)
    (step : ∀ before op answer after, invariant before → admits before op →
      op.Steps before answer after → invariant after)
    (holds : invariant start) : invariant last := by
  induction run with
  | nil => exact holds
  | snoc run admitted steps induction => exact step _ _ _ _ induction admitted steps

theorem Run.mono {weaker : JSM → Op → Prop} {start last : JSM} {events : List (Op × Answer)}
    (run : Run admits start events last) (weaken : ∀ jsm op, admits jsm op → weaker jsm op) :
    Run weaker start events last := by
  induction run with
  | nil => exact .nil _
  | snoc run admitted steps induction => exact .snoc induction (weaken _ _ admitted) steps

theorem Reachable.invariant {invariant : JSM → Prop} {jsm : JSM} (reachable : Reachable admits jsm)
    (holds : invariant newJSM)
    (step : ∀ before op answer after, invariant before → admits before op →
      op.Steps before answer after → invariant after) : invariant jsm := by
  obtain ⟨events, run⟩ := reachable
  exact run.invariant step holds

theorem Op.Steps.keeps {invariant : JSM → Prop} {op : Op} {before after : JSM} {answer : Answer}
    {onPanic : Prop} (steps : op.Steps before answer after)
    (ends : (op.run before).Ends (fun _ => invariant) (fun _ => invariant) onPanic) :
    invariant after :=
  ends.of_state steps.2

theorem Op.Steps.meets {op : Op} {before after : JSM} {answer : Answer}
    {onPanic : Prop} (steps : op.Steps before answer after) (post : Answer → JSM → Prop)
    (ends : (op.run before).Ends (fun reply => post (.ok reply))
      (fun error => post (.error error)) onPanic) : post answer after := by
  obtain ⟨replied, left⟩ := steps
  cases outcome : op.run before with
  | ok value state | err error state =>
      rw [outcome] at ends replied left
      cases replied
      cases left
      exact ends
  | panic cause =>
      rw [outcome] at left
      cases left

/-! ### Replaying operations -/

/-- The state after a list of operations, unless one of them panics. -/
def replay : List Op → JSM → Option JSM
  | [], jsm => some jsm
  | op :: ops, jsm => (op.run jsm).state?.bind (replay ops)

/-- The state that operations on a new state machine lead to. -/
def stateAfter (ops : List Op) : JSM :=
  (replay ops newJSM).getD newJSM

/-- The operations with their answers, up to the first panic. -/
def history : List Op → JSM → List (Op × Answer)
  | [], _ => []
  | op :: ops, jsm =>
      match (op.run jsm).reply?, (op.run jsm).state? with
      | some answer, some after => (op, answer) :: history ops after
      | _, _ => []

theorem Op.steps_of_state {op : Op} {before after : JSM}
    (left : (op.run before).state? = some after) : ∃ answer, op.Steps before answer after := by
  unfold Op.Steps
  cases outcome : op.run before with
  | ok value state => exact ⟨_, rfl, by rw [← outcome, left]⟩
  | err error state => exact ⟨_, rfl, by rw [← outcome, left]⟩
  | panic cause =>
      rw [outcome] at left
      cases left

/-- The states that the operations are applied to admit them. -/
def Admitted (admits : JSM → Op → Prop) : List Op → JSM → Prop
  | [], _ => True
  | op :: ops, jsm =>
      admits jsm op ∧ ∀ after ∈ (op.run jsm).state?, Admitted admits ops after

instance Admitted.decidable [∀ jsm op, Decidable (admits jsm op)] :
    ∀ ops jsm, Decidable (Admitted admits ops jsm)
  | [], _ => isTrue trivial
  | op :: ops, jsm =>
      have : ∀ after, Decidable (Admitted admits ops after) := Admitted.decidable ops
      inferInstanceAs (Decidable (admits jsm op ∧ ∀ after ∈ (op.run jsm).state?, _))

theorem admitted_of_forall {ops : List Op} (admitted : ∀ op ∈ ops, ∀ jsm, admits jsm op)
    (jsm : JSM) : Admitted admits ops jsm := by
  induction ops generalizing jsm with
  | nil => trivial
  | cons op ops induction =>
      refine ⟨admitted op List.mem_cons_self jsm, fun after _ => induction ?_ after⟩
      exact fun later member => admitted later (List.mem_cons_of_mem _ member)

theorem Run.of_replay {ops : List Op} {start middle last : JSM} {events : List (Op × Answer)}
    (run : Run admits start events middle) (admitted : Admitted admits ops middle)
    (played : replay ops middle = some last) :
    Run admits start (events ++ history ops middle) last := by
  induction ops generalizing middle events with
  | nil =>
      cases played
      rw [history, List.append_nil]
      exact run
  | cons op ops induction =>
      obtain ⟨next, left, played⟩ := Option.bind_eq_some_iff.mp played
      obtain ⟨answer, steps⟩ := Op.steps_of_state left
      have rest := induction (run.snoc admitted.1 steps) (admitted.2 next left) played
      rw [List.append_assoc] at rest
      rw [history, steps.1, left]
      exact rest

theorem run_replay {ops : List Op} {jsm last : JSM} (admitted : Admitted admits ops jsm)
    (played : replay ops jsm = some last) : Run admits jsm (history ops jsm) last := by
  have run := Run.of_replay (.nil jsm) admitted played
  rwa [List.nil_append] at run

theorem run_history (ops : List Op) (admitted : Admitted admits ops newJSM)
    (played : (replay ops newJSM).isSome = true) :
    Run admits newJSM (history ops newJSM) (stateAfter ops) := by
  obtain ⟨last, played⟩ := Option.isSome_iff_exists.mp played
  rw [stateAfter, played]
  exact run_replay admitted played

theorem reachable_of_admitted (ops : List Op) (admitted : Admitted admits ops newJSM) :
    Reachable admits (stateAfter ops) := by
  unfold stateAfter
  cases played : replay ops newJSM with
  | none => exact ⟨[], .nil newJSM⟩
  | some last => exact ⟨_, Run.of_replay (.nil newJSM) admitted played⟩

theorem reachable_stateAfter (ops : List Op) (admitted : ∀ op ∈ ops, ∀ jsm, admits jsm op) :
    Reachable admits (stateAfter ops) :=
  reachable_of_admitted ops (admitted_of_forall admitted newJSM)

end Runs

end Coolbeans
