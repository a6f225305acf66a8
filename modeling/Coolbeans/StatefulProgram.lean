import Mathlib.Init

/-!
# Imperative programs with errors and panics

A program reads and writes a state, and ends in one of three ways: it returns
a value, it returns an error, or it panics.  The first two leave a state
behind, since an error return does not undo the writes made before it; a panic
ends the process and leaves nothing.  This file gives the monad of such
programs, the equations that run them, and the rules by which a relation
between the state before and the state after passes through a program.
-/

namespace StatefulProgram

/-- How a run of a program ends. -/
inductive Outcome (σ ε π α : Type) where
  | ok (value : α) (state : σ)
  | err (error : ε) (state : σ)
  | panic (cause : π)

/-- A program over the state `σ`, with errors `ε` and panics `π`. -/
def Prog (σ ε π α : Type) : Type :=
  σ → Outcome σ ε π α

namespace Outcome

variable {σ ε π α β : Type}

/-- Continue a run that returned a value. -/
def andThen (outcome : Outcome σ ε π α) (next : α → Prog σ ε π β) :
    Outcome σ ε π β :=
  match outcome with
  | .ok value state => next value state
  | .err error state => .err error state
  | .panic cause => .panic cause

@[simp]
theorem ok_andThen (value : α) (state : σ) (next : α → Prog σ ε π β) :
    (ok value state).andThen next = next value state :=
  rfl

@[simp]
theorem err_andThen (error : ε) (state : σ) (next : α → Prog σ ε π β) :
    (err error state).andThen next = .err error state :=
  rfl

@[simp]
theorem panic_andThen (cause : π) (next : α → Prog σ ε π β) :
    (panic cause).andThen next = .panic cause :=
  rfl

/-- The state that a run leaves behind, if it does not panic. -/
def state? : Outcome σ ε π α → Option σ
  | .ok _ state => some state
  | .err _ state => some state
  | .panic _ => none

/-- The value or the error that a run answers with, if it does not panic. -/
def reply? : Outcome σ ε π α → Option (Except ε α)
  | .ok value _ => some (.ok value)
  | .err error _ => some (.error error)
  | .panic _ => none

/-- The run with its error translated. -/
def mapErr {ε' : Type} (change : ε → ε') : Outcome σ ε π α → Outcome σ ε' π α
  | .ok value state => .ok value state
  | .err error state => .err (change error) state
  | .panic cause => .panic cause

/-- The run ends as the postconditions of a return, of an error and of a panic
allow. -/
def Ends (outcome : Outcome σ ε π α) (onOk : α → σ → Prop) (onErr : ε → σ → Prop)
    (onPanic : Prop) : Prop :=
  match outcome with
  | .ok value state => onOk value state
  | .err error state => onErr error state
  | .panic _ => onPanic

section Ends

variable {onOk onOk' : α → σ → Prop} {onErr onErr' : ε → σ → Prop} {onPanic onPanic' : Prop}

@[simp]
theorem ends_ok (value : α) (state : σ) :
    (ok value state : Outcome σ ε π α).Ends onOk onErr onPanic ↔ onOk value state :=
  Iff.rfl

@[simp]
theorem ends_err (error : ε) (state : σ) :
    (err error state : Outcome σ ε π α).Ends onOk onErr onPanic ↔ onErr error state :=
  Iff.rfl

@[simp]
theorem ends_panic (cause : π) :
    (panic cause).Ends onOk onErr onPanic ↔ onPanic :=
  Iff.rfl

theorem Ends.mono {outcome : Outcome σ ε π α} (ends : outcome.Ends onOk onErr onPanic)
    (returns : ∀ value state, onOk value state → onOk' value state)
    (fails : ∀ error state, onErr error state → onErr' error state)
    (panics : onPanic → onPanic') : outcome.Ends onOk' onErr' onPanic' := by
  cases outcome with
  | ok value state => exact returns value state ends
  | err error state => exact fails error state ends
  | panic cause => exact panics ends

theorem Ends.and {outcome : Outcome σ ε π α} (first : outcome.Ends onOk onErr onPanic)
    (second : outcome.Ends onOk' onErr' onPanic') :
    outcome.Ends (fun value state => onOk value state ∧ onOk' value state)
      (fun error state => onErr error state ∧ onErr' error state) (onPanic ∧ onPanic') := by
  cases outcome <;> exact ⟨first, second⟩

theorem Ends.returns {outcome : Outcome σ ε π α}
    (ends : outcome.Ends onOk (fun _ _ => False) False) :
    ∃ value state, outcome = .ok value state ∧ onOk value state := by
  cases outcome with
  | ok value state => exact ⟨value, state, rfl, ends⟩
  | err error state => exact ends.elim
  | panic cause => exact ends.elim

theorem Ends.of_err {outcome : Outcome σ ε π α} (ends : outcome.Ends onOk onErr onPanic)
    {error : ε} {after : σ} (fails : outcome = .err error after) : onErr error after := by
  subst fails
  exact ends

/-- What holds however a run ends holds of the state it leaves behind. -/
theorem Ends.of_state {outcome : Outcome σ ε π α} {post : σ → Prop}
    (ends : outcome.Ends (fun _ => post) (fun _ => post) onPanic) {after : σ}
    (left : outcome.state? = some after) : post after := by
  cases outcome with
  | ok value state | err error state =>
      cases left
      exact ends
  | panic cause => cases left

theorem ends_andThen {outcome : Outcome σ ε π β} {next : β → Prog σ ε π α} :
    (outcome.andThen next).Ends onOk onErr onPanic ↔
      outcome.Ends (fun value state => (next value state).Ends onOk onErr onPanic) onErr
        onPanic := by
  cases outcome <;> rfl

end Ends

/-- The run returns with the postcondition, or panics for one of the causes. -/
def Halts (causes : π → Prop) (onOk : α → σ → Prop) : Outcome σ ε π α → Prop
  | .ok value state => onOk value state
  | .err _ _ => False
  | .panic cause => causes cause

section Halts

variable {causes causes' : π → Prop} {onOk : α → σ → Prop} {outcome : Outcome σ ε π α}

theorem Ends.halts (ends : outcome.Ends onOk (fun _ _ => False) False) :
    outcome.Halts causes onOk := by
  obtain ⟨value, state, returns, holds⟩ := ends.returns
  rw [returns]
  exact holds

theorem Halts.mono (halts : outcome.Halts causes onOk)
    (panics : ∀ cause, causes cause → causes' cause) : outcome.Halts causes' onOk := by
  cases outcome with
  | ok value state => exact halts
  | err error state => exact halts
  | panic cause => exact panics cause halts

/-- A run that has no cause to panic returns. -/
theorem Halts.returns (halts : outcome.Halts causes onOk) (never : ∀ cause, ¬ causes cause) :
    ∃ value state, outcome = .ok value state ∧ onOk value state := by
  cases outcome with
  | ok value state => exact ⟨value, state, rfl, halts⟩
  | err error state => exact halts.elim
  | panic cause => exact absurd halts (never cause)

end Halts

end Outcome

namespace Prog

variable {σ τ ε π α β : Type}

instance : Monad (Prog σ ε π) where
  pure value := fun state => .ok value state
  bind program next := fun state => (program state).andThen next

/-- Read the state through a projection. -/
def gets (read : σ → α) : Prog σ ε π α :=
  fun state => .ok (read state) state

/-- Write the state. -/
def modify (write : σ → σ) : Prog σ ε π Unit :=
  fun state => .ok () (write state)

/-- Return an error. -/
def fail (error : ε) : Prog σ ε π α :=
  fun state => .err error state

/-- Panic. -/
def crash (cause : π) : Prog σ ε π α :=
  fun _ => .panic cause

/-- Return the error unless the condition holds. -/
def require (condition : Prop) [Decidable condition] (error : ε) : Prog σ ε π Unit :=
  fun state => if condition then .ok () state else .err error state

/-- Panic unless the condition holds. -/
def insist (condition : Prop) [Decidable condition] (cause : π) : Prog σ ε π Unit :=
  fun state => if condition then .ok () state else .panic cause

/-- Run a program and hand its error to the caller as a value. -/
def attempt (program : Prog σ ε π α) : Prog σ ε π (Except ε α) :=
  fun state =>
    match program state with
    | .ok value after => .ok (.ok value) after
    | .err error after => .ok (.error error) after
    | .panic cause => .panic cause

/-- Run a program and panic on its error. -/
def orCrash (cause : π) (program : Prog σ ε π α) : Prog σ ε π α :=
  fun state =>
    match program state with
    | .ok value after => .ok value after
    | .err _ _ => .panic cause
    | .panic inner => .panic inner

/-- Run a program and translate its error. -/
def mapErr {ε' : Type} (change : ε → ε') (program : Prog σ ε π α) : Prog σ ε' π α :=
  fun state => (program state).mapErr change

/-- Dereference an optional pointer. -/
def deref (cause : π) : Option α → Prog σ ε π α
  | some value => pure value
  | none => crash cause

section Equations

variable (state : σ)

@[simp]
theorem pure_apply (value : α) :
    (pure value : Prog σ ε π α) state = .ok value state :=
  rfl

theorem map_apply (change : α → β) (program : Prog σ ε π α) (state : σ) :
    (change <$> program) state =
      (program state).andThen fun value after => .ok (change value) after :=
  rfl

@[simp]
theorem bind_apply (program : Prog σ ε π α) (next : α → Prog σ ε π β) :
    (program >>= next) state = (program state).andThen next :=
  rfl

@[simp]
theorem pure_andThen (value : α) (next : α → Prog σ ε π β) :
    (pure value >>= next : Prog σ ε π β) = next value :=
  rfl

@[simp]
theorem gets_apply (read : σ → α) :
    (gets read : Prog σ ε π α) state = .ok (read state) state :=
  rfl

theorem gets_bind (read : σ → α) (next : α → Prog σ ε π β) :
    (gets read >>= next : Prog σ ε π β) state = next (read state) state :=
  rfl

@[simp]
theorem modify_apply (write : σ → σ) :
    (modify write : Prog σ ε π Unit) state = .ok () (write state) :=
  rfl

@[simp]
theorem fail_apply (error : ε) :
    (fail error : Prog σ ε π α) state = .err error state :=
  rfl

@[simp]
theorem crash_apply (cause : π) :
    (crash cause : Prog σ ε π α) state = .panic cause :=
  rfl

@[simp]
theorem require_apply (condition : Prop) [Decidable condition] (error : ε) :
    (require condition error : Prog σ ε π Unit) state =
      if condition then .ok () state else .err error state :=
  rfl

@[simp]
theorem insist_apply (condition : Prop) [Decidable condition] (cause : π) :
    (insist condition cause : Prog σ ε π Unit) state =
      if condition then .ok () state else .panic cause :=
  rfl

/-- A sequence that returns has returned from its first program. -/
theorem ok_of_bind {program : Prog σ ε π α} {next : α → Prog σ ε π β} {state after : σ} {value : β}
    (returns : (program >>= next) state = .ok value after) :
    ∃ first middle, program state = .ok first middle ∧ next first middle = .ok value after := by
  rw [bind_apply] at returns
  cases outcome : program state with
  | ok first middle =>
      rw [outcome] at returns
      exact ⟨first, middle, rfl, returns⟩
  | err error middle | panic cause =>
      rw [outcome] at returns
      cases returns

theorem err_of_map {change : α → β} {program : Prog σ ε π α} {state after : σ} {error : ε}
    (fails : (change <$> program) state = .err error after) :
    program state = .err error after := by
  rw [map_apply] at fails
  cases outcome : program state with
  | ok value middle =>
      rw [outcome] at fails
      cases fails
  | err other middle =>
      rw [outcome] at fails
      cases fails
      rfl
  | panic cause =>
      rw [outcome] at fails
      cases fails

theorem map_mapErr {ε' : Type} (change : ε → ε') (convert : α → β) (program : Prog σ ε π α) :
    convert <$> mapErr change program = mapErr change (convert <$> program) := by
  funext state
  rw [map_apply]
  unfold mapErr
  rw [map_apply]
  cases program state <;> rfl

theorem attempt_of_ok {program : Prog σ ε π α} {state after : σ} {value : α}
    (runs : program state = .ok value after) :
    attempt program state = .ok (.ok value) after := by
  simp [attempt, runs]

theorem attempt_of_err {program : Prog σ ε π α} {state after : σ} {error : ε}
    (runs : program state = .err error after) :
    attempt program state = .ok (.error error) after := by
  simp [attempt, runs]

@[simp]
theorem deref_some (cause : π) (value : α) :
    (deref cause (some value) : Prog σ ε π α) = pure value :=
  rfl

@[simp]
theorem deref_none (cause : π) :
    (deref cause none : Prog σ ε π α) = crash cause :=
  rfl

end Equations

/-! ## Postconditions -/

section Ends

variable {onOk : β → σ → Prop} {onErr : ε → σ → Prop} {onPanic : Prop} {state : σ}

/-- The postcondition of the first program is the precondition of the second. -/
theorem ends_bind {program : Prog σ ε π α} {next : α → Prog σ ε π β} {middle : α → σ → Prop}
    (first : (program state).Ends middle onErr onPanic)
    (second : ∀ value after, middle value after → (next value after).Ends onOk onErr onPanic) :
    ((program >>= next) state).Ends onOk onErr onPanic := by
  rw [bind_apply, Outcome.ends_andThen]
  exact first.mono second (fun _ _ => id) id

theorem ends_attempt {program : Prog σ ε π α} (onOk : Except ε α → σ → Prop)
    (ends : (program state).Ends (fun value => onOk (.ok value))
      (fun error => onOk (.error error)) onPanic) :
    (attempt program state).Ends onOk onErr onPanic := by
  unfold attempt
  cases run : program state <;> simpa [run] using ends

theorem ends_orCrash {program : Prog σ ε π β} (cause : π)
    (ends : (program state).Ends onOk (fun _ _ => onPanic) onPanic) :
    (orCrash cause program state).Ends onOk onErr onPanic := by
  unfold orCrash
  cases run : program state <;> simpa [run] using ends

/-- A call whose error the caller looks at. -/
theorem ends_attempt_bind {program : Prog σ ε π α} {next : Except ε α → Prog σ ε π β}
    {middle : α → σ → Prop}
    (first : (program state).Ends middle
      (fun error after => (next (.error error) after).Ends onOk onErr onPanic) onPanic)
    (second : ∀ value after, middle value after →
      (next (.ok value) after).Ends onOk onErr onPanic) :
    ((attempt program >>= next) state).Ends onOk onErr onPanic := by
  rw [bind_apply, Outcome.ends_andThen]
  exact ends_attempt _ (first.mono second (fun _ _ => id) id)

theorem ends_mapErr {ε' : Type} {change : ε → ε'} {program : Prog σ ε π β}
    {onErr : ε' → σ → Prop}
    (ends : (program state).Ends onOk (fun error => onErr (change error)) onPanic) :
    (mapErr change program state).Ends onOk onErr onPanic := by
  unfold mapErr
  cases run : program state <;> simpa [run, Outcome.mapErr] using ends

theorem ends_map {program : Prog σ ε π α} {change : α → β}
    (ends : (program state).Ends (fun value => onOk (change value)) onErr onPanic) :
    ((change <$> program) state).Ends onOk onErr onPanic := by
  change ((program state).andThen _).Ends onOk onErr onPanic
  rw [Outcome.ends_andThen]
  exact ends

/-- The rule for a loop over a list: a round keeps the invariant, which speaks
of the items that are done. -/
theorem ends_foldlM {γ : Type} {body : β → γ → Prog σ ε π β} (items : List γ)
    (invariant : List γ → β → σ → Prop)
    (round : ∀ done item rest value state, items = done ++ item :: rest →
      invariant done value state →
      (body value item state).Ends (invariant (done ++ [item])) onErr onPanic)
    {value : β} {state : σ} (start : invariant [] value state) :
    (items.foldlM body value state).Ends (invariant items) onErr onPanic := by
  suffices remaining : ∀ rest done value state, items = done ++ rest →
      invariant done value state →
      (rest.foldlM body value state).Ends (invariant items) onErr onPanic from
    remaining items [] value state rfl start
  intro rest
  induction rest with
  | nil =>
      intro done value state split kept
      rw [List.append_nil] at split
      rw [List.foldlM_nil, split]
      exact kept
  | cons item rest ih =>
      intro done value state split kept
      rw [List.foldlM_cons]
      refine ends_bind (round done item rest value state split kept) fun value after kept => ?_
      exact ih (done ++ [item]) value after (by simpa using split) kept

/-- Two loops agree on the rounds that succeed. -/
theorem foldlM_of_ok {γ : Type} {first second : β → γ → Prog σ ε π β} (items : List γ)
    (follows : ∀ value item state result after, first value item state = .ok result after →
      second value item state = .ok result after) {value result : β} {state after : σ}
    (returns : items.foldlM first value state = .ok result after) :
    items.foldlM second value state = .ok result after := by
  induction items generalizing value state with
  | nil => exact returns
  | cons item items induction =>
      rw [List.foldlM_cons, bind_apply] at returns ⊢
      cases round : first value item state with
      | ok next middle =>
          rw [round, Outcome.ok_andThen] at returns
          rw [follows _ _ _ _ _ round, Outcome.ok_andThen]
          exact induction returns
      | err error middle =>
          rw [round] at returns
          cases returns
      | panic cause =>
          rw [round] at returns
          cases returns

end Ends

/-! ## Invariants -/

/-- The program keeps the invariant, however it ends. -/
def Keeps (invariant : σ → Prop) (program : Prog σ ε π α) : Prop :=
  ∀ state, invariant state →
    (program state).Ends (fun _ => invariant) (fun _ => invariant) True

section Keeps

variable {invariant : σ → Prop}

theorem keeps_pure (value : α) : Keeps invariant (pure value : Prog σ ε π α) :=
  fun _ holds => holds

theorem keeps_gets (read : σ → α) : Keeps invariant (gets read : Prog σ ε π α) :=
  fun _ holds => holds

theorem keeps_fail (error : ε) : Keeps invariant (fail error : Prog σ ε π α) :=
  fun _ holds => holds

theorem keeps_crash (cause : π) : Keeps invariant (crash cause : Prog σ ε π α) :=
  fun _ _ => trivial

theorem keeps_require (condition : Prop) [Decidable condition] (error : ε) :
    Keeps invariant (require condition error : Prog σ ε π Unit) := by
  intro state holds
  rw [require_apply]
  split <;> exact holds

theorem keeps_modify {write : σ → σ} (keeps : ∀ state, invariant state → invariant (write state)) :
    Keeps invariant (modify write : Prog σ ε π Unit) :=
  fun state holds => keeps state holds

theorem Keeps.bind {program : Prog σ ε π α} {next : α → Prog σ ε π β}
    (first : Keeps invariant program) (second : ∀ value, Keeps invariant (next value)) :
    Keeps invariant (program >>= next) :=
  fun state holds => ends_bind (first state holds) fun value after kept => second value after kept

theorem Keeps.attempt {program : Prog σ ε π α} (keeps : Keeps invariant program) :
    Keeps invariant (attempt program) :=
  fun state holds => ends_attempt _ (keeps state holds)

theorem Keeps.map {program : Prog σ ε π α} {change : α → β} (keeps : Keeps invariant program) :
    Keeps invariant (change <$> program) :=
  fun state holds => ends_map (keeps state holds)

theorem keeps_foldlM {γ : Type} {body : β → γ → Prog σ ε π β} (items : List γ) (value : β)
    (round : ∀ value item, Keeps invariant (body value item)) :
    Keeps invariant (items.foldlM body value) := by
  intro state holds
  exact ends_foldlM items (fun _ _ => invariant)
    (fun _ item _ value state _ kept => round value item state kept) holds

end Keeps

/-! ## Errors -/

/-- The program returns no error. -/
def NeverFails (program : Prog σ ε π α) : Prop :=
  ∀ state, (program state).Ends (fun _ _ => True) (fun _ _ => False) True

/-- An error of the program leaves the state as it was. -/
def FailsClean (invariant : σ → Prop) (program : Prog σ ε π α) : Prop :=
  ∀ state, invariant state →
    (program state).Ends (fun _ _ => True) (fun _ after => after = state) True

section Errors

variable {invariant : σ → Prop}

theorem neverFails_pure (value : α) : NeverFails (pure value : Prog σ ε π α) :=
  fun _ => trivial

theorem neverFails_gets (read : σ → α) : NeverFails (gets read : Prog σ ε π α) :=
  fun _ => trivial

theorem neverFails_modify (write : σ → σ) : NeverFails (modify write : Prog σ ε π Unit) :=
  fun _ => trivial

theorem neverFails_crash (cause : π) : NeverFails (crash cause : Prog σ ε π α) :=
  fun _ => trivial

theorem neverFails_attempt (program : Prog σ ε π α) : NeverFails (attempt program) := by
  intro state
  apply ends_attempt
  cases program state <;> trivial

theorem NeverFails.bind {program : Prog σ ε π α} {next : α → Prog σ ε π β}
    (first : NeverFails program) (second : ∀ value, NeverFails (next value)) :
    NeverFails (program >>= next) :=
  fun state => ends_bind (first state) fun value after _ => second value after

theorem neverFails_foldlM {γ : Type} {body : β → γ → Prog σ ε π β} (items : List γ) (value : β)
    (round : ∀ value item, NeverFails (body value item)) :
    NeverFails (items.foldlM body value) := by
  intro state
  exact ends_foldlM items (fun _ _ _ => True)
    (fun _ item _ value state _ _ => round value item state) trivial

theorem FailsClean.bind {program : Prog σ ε π α} {next : α → Prog σ ε π β}
    (first : FailsClean invariant program) (second : ∀ value, NeverFails (next value)) :
    FailsClean invariant (program >>= next) :=
  fun state holds => ends_bind (first state holds) fun value after _ =>
    (second value after).mono (fun _ _ => id) (fun _ _ => False.elim) id

/-- A program that keeps every invariant only reads. -/
theorem FailsClean.of_reads {program : Prog σ ε π α} {next : α → Prog σ ε π β}
    (reads : ∀ same : σ → Prop, Keeps same program)
    (second : ∀ value, FailsClean invariant (next value)) :
    FailsClean invariant (program >>= next) := by
  intro state holds
  refine ends_bind (reads (· = state) state rfl) fun value after same => ?_
  subst same
  exact second value after holds

end Errors

/-! ## Causes of panics -/

/-- The program does not panic for the cause. -/
def Avoids (cause : π) (program : Prog σ ε π α) : Prop :=
  ∀ state, program state ≠ .panic cause

section Avoids

variable {cause : π}

theorem avoids_pure (value : α) : Avoids cause (pure value : Prog σ ε π α) := by
  intro state panics
  cases panics

theorem avoids_gets (read : σ → α) : Avoids cause (gets read : Prog σ ε π α) := by
  intro state panics
  cases panics

theorem avoids_modify (write : σ → σ) : Avoids cause (modify write : Prog σ ε π Unit) := by
  intro state panics
  cases panics

theorem avoids_fail (error : ε) : Avoids cause (fail error : Prog σ ε π α) := by
  intro state panics
  cases panics

theorem avoids_crash {other : π} (different : other ≠ cause) :
    Avoids cause (crash other : Prog σ ε π α) := by
  intro state panics
  cases panics
  exact different rfl

theorem avoids_require (condition : Prop) [Decidable condition] (error : ε) :
    Avoids cause (require condition error : Prog σ ε π Unit) := by
  intro state panics
  rw [require_apply] at panics
  split at panics <;> cases panics

theorem Avoids.bind {program : Prog σ ε π α} {next : α → Prog σ ε π β}
    (first : Avoids cause program) (second : ∀ value, Avoids cause (next value)) :
    Avoids cause (program >>= next) := by
  intro state panics
  rw [bind_apply] at panics
  cases outcome : program state with
  | ok value after =>
      rw [outcome] at panics
      exact second value after panics
  | err error after =>
      rw [outcome] at panics
      cases panics
  | panic other =>
      rw [outcome] at panics
      cases panics
      exact first state outcome

theorem Avoids.attempt {program : Prog σ ε π α} (avoids : Avoids cause program) :
    Avoids cause (attempt program) := by
  intro state panics
  unfold Prog.attempt at panics
  cases outcome : program state with
  | ok value after | err error after =>
      rw [outcome] at panics
      cases panics
  | panic other =>
      rw [outcome] at panics
      cases panics
      exact avoids state outcome

end Avoids

theorem halts_bind {causes : π → Prop} {program : Prog σ ε π α} {next : α → Prog σ ε π β}
    {state : σ} {middle : α → σ → Prop} {onOk : β → σ → Prop}
    (first : (program state).Halts causes middle)
    (second : ∀ value after, middle value after → (next value after).Halts causes onOk) :
    ((program >>= next) state).Halts causes onOk := by
  rw [bind_apply]
  cases outcome : program state with
  | ok value after =>
      rw [outcome] at first
      exact second value after first
  | err error after =>
      rw [outcome] at first
      exact first.elim
  | panic cause =>
      rw [outcome] at first
      exact first

end Prog

end StatefulProgram
