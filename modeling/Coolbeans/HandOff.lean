import Coolbeans.StatefulProgram

/-!
# Handing items over to a worker

A feeder hands a list of items, one by one, to a worker that runs beside it, closes their
channel and waits for the worker's result.  Both channels are unbuffered: a send and its
receive are one step of the two parties.  The worker looks at a clock after each item it has
received, and stops at the first item that comes too late or that it cannot handle; then it
reports, and receives no more.

What the worker makes of the items is a function of the items and the clock alone.  The two
parties can block each other, the feeder with an item and the worker with an error, exactly
if the worker stops before the last item.
-/

namespace HandOff

open StatefulProgram

variable {ι τ σ ε π : Type}

/-- What the worker does with an item and at the end, over the memory `σ`; `expired k` says
that the clock has run out at its check after `k` items. -/
structure Worker (ι τ σ ε π : Type) where
  start : τ
  handle : τ → ι → Prog σ ε π τ
  finish : τ → Prog σ ε π Unit
  cancelled : ε
  expired : Nat → Bool

/-- Where the feeder is: sending the first of its items, or closing their channel if none is
left; waiting for the result; or back with it. -/
inductive FeederState (ι ε : Type) where
  | sending (items : List ι)
  | awaiting
  | returned (result : Option ε)

/-- Where the worker is. -/
inductive WorkerState (ι τ ε : Type) where
  | receiving (made : τ)
  | handling (made : τ) (item : ι)
  | reporting (result : Option ε)
  | gone
  | crashed

/-- The two parties, the number of checks of the clock and the memory. -/
structure Parties (ι τ σ ε : Type) where
  feeder : FeederState ι ε
  worker : WorkerState ι τ ε
  checks : Nat
  memory : σ

/-- What one of the parties does, or both together. -/
inductive Action where
  | handOver
  | close
  | handle
  | seeClosed
  | report
  deriving DecidableEq, Repr

/-- The items that the feeder still has. -/
def FeederState.remaining : FeederState ι ε → List ι
  | .sending items => items
  | .awaiting | .returned _ => []

namespace Worker

variable (work : Worker ι τ σ ε π)

/-- The parties at the beginning. -/
def parties (items : List ι) (memory : σ) : Parties ι τ σ ε where
  feeder := .sending items
  worker := .receiving work.start
  checks := 0
  memory

/-- The worker has looked at the clock and handles its item. -/
def afterCheck (made : τ) (item : ι) (s : Parties ι τ σ ε) : Parties ι τ σ ε :=
  if work.expired s.checks then
    { s with worker := .reporting (some work.cancelled), checks := s.checks + 1 }
  else
    match work.handle made item s.memory with
    | .ok made memory => { s with worker := .receiving made, checks := s.checks + 1, memory }
    | .err error memory =>
        { s with worker := .reporting (some error), checks := s.checks + 1, memory }
    | .panic _ => { s with worker := .crashed }

/-- The worker has seen that no item is left. -/
def afterLast (made : τ) (s : Parties ι τ σ ε) : Parties ι τ σ ε :=
  match work.finish made s.memory with
  | .ok _ memory => { s with worker := .reporting none, memory }
  | .err error memory => { s with worker := .reporting (some error), memory }
  | .panic _ => { s with worker := .crashed }

/-- An action, where the parties are ready for it. -/
def step (action : Action) (s : Parties ι τ σ ε) : Option (Parties ι τ σ ε) :=
  match action, s.feeder, s.worker with
  | .handOver, .sending (item :: rest), .receiving made =>
      some { s with feeder := .sending rest, worker := .handling made item }
  | .close, .sending [], .crashed => none
  | .close, .sending [], _ => some { s with feeder := .awaiting }
  | .handle, _, .handling made item => some (work.afterCheck made item s)
  | .seeClosed, .awaiting, .receiving made => some (work.afterLast made s)
  | .report, .awaiting, .reporting result =>
      some { s with feeder := .returned result, worker := .gone }
  | _, _, _ => none

/-- The states that the parties reach. -/
inductive Reaches (items : List ι) (memory : σ) : Parties ι τ σ ε → Prop
  | start : Reaches items memory (work.parties items memory)
  | step {before after : Parties ι τ σ ε} (action : Action)
      (reached : Reaches items memory before) (steps : work.step action before = some after) :
      Reaches items memory after

end Worker

/-- The feeder is blocked with an item and the worker with an error. -/
def Parties.Blocked (s : Parties ι τ σ ε) : Prop :=
  ∃ item rest error, s.feeder = .sending (item :: rest) ∧ s.worker = .reporting (some error)

/-! ## What the worker makes of the items -/

/-- How the items end: all are handled, or the worker stops with items left, or it panics. -/
inductive Ending (ι τ σ ε : Type) where
  | handled (made : τ) (memory : σ)
  | stopped (error : ε) (memory : σ) (rest : List ι)
  | crashed

namespace Worker

variable (work : Worker ι τ σ ε π)

/-- The ending of the items, after a number of checks. -/
def drive : Nat → τ → List ι → σ → Ending ι τ σ ε
  | _, made, [], memory => .handled made memory
  | checks, made, item :: rest, memory =>
      if work.expired checks then .stopped work.cancelled memory rest
      else
        match work.handle made item memory with
        | .ok made memory => drive (checks + 1) made rest memory
        | .err error memory => .stopped error memory rest
        | .panic _ => .crashed

/-- The worker reports what the ending calls for. -/
def Reports (ending : Ending ι τ σ ε) (result : Option ε) (memory : σ) (rest : List ι) : Prop :=
  match ending with
  | .handled made last =>
      rest = [] ∧ (work.finish made last = .ok () memory ∧ result = none ∨
        ∃ error, work.finish made last = .err error memory ∧ result = some error)
  | .stopped error last left => result = some error ∧ memory = last ∧ rest = left
  | .crashed => False

theorem Reports.stopped {work : Worker ι τ σ ε π} {ending : Ending ι τ σ ε} {result : Option ε}
    {memory : σ} {item : ι} {rest : List ι}
    (reports : work.Reports ending result memory (item :: rest)) :
    ∃ error, ending = .stopped error memory (item :: rest) ∧ result = some error := by
  cases ending with
  | handled made last => cases reports.1
  | stopped error last left =>
      obtain ⟨isError, rfl, rfl⟩ := reports
      exact ⟨error, rfl, isError⟩
  | crashed => exact reports.elim

theorem Reports.handled {work : Worker ι τ σ ε π} {ending : Ending ι τ σ ε} {memory : σ}
    {rest : List ι} (reports : work.Reports ending none memory rest) :
    ∃ made last, ending = .handled made last ∧ work.finish made last = .ok () memory := by
  cases ending with
  | handled made last =>
      rcases reports.2 with ⟨finishes, _⟩ | ⟨error, _, isError⟩
      · exact ⟨made, last, rfl, finishes⟩
      · cases isError
  | stopped error last left => cases reports.1
  | crashed => exact reports.elim

/-- The parties are on the way to an ending. -/
def Tracks (ending : Ending ι τ σ ε) (s : Parties ι τ σ ε) : Prop :=
  match s.worker with
  | .receiving made =>
      (∀ result, s.feeder ≠ .returned result) ∧
        work.drive s.checks made s.feeder.remaining s.memory = ending
  | .handling made item =>
      (∀ result, s.feeder ≠ .returned result) ∧
        work.drive s.checks made (item :: s.feeder.remaining) s.memory = ending
  | .reporting result =>
      (∀ result, s.feeder ≠ .returned result) ∧
        work.Reports ending result s.memory s.feeder.remaining
  | .gone => ∃ result, s.feeder = .returned result ∧ work.Reports ending result s.memory []
  | .crashed => ∀ result, s.feeder ≠ .returned result

variable {work} {items : List ι} {memory : σ} {s after : Parties ι τ σ ε}

theorem Tracks.afterCheck {ending : Ending ι τ σ ε} {made : τ} {item : ι}
    (notBack : ∀ result, s.feeder ≠ .returned result)
    (driven : work.drive s.checks made (item :: s.feeder.remaining) s.memory = ending) :
    work.Tracks ending (work.afterCheck made item s) := by
  subst driven
  unfold Worker.afterCheck drive
  split
  next => exact ⟨notBack, rfl, rfl, rfl⟩
  next =>
    cases work.handle made item s.memory with
    | ok made memory => exact ⟨notBack, rfl⟩
    | err error memory => exact ⟨notBack, rfl, rfl, rfl⟩
    | panic cause => exact notBack

theorem Tracks.afterLast {ending : Ending ι τ σ ε} {made : τ} (awaits : s.feeder = .awaiting)
    (driven : work.drive s.checks made [] s.memory = ending) :
    work.Tracks ending (work.afterLast made s) := by
  subst driven
  unfold Worker.afterLast drive
  cases ends : work.finish made s.memory with
  | ok value memory =>
      refine ⟨by simp [awaits], ?_, Or.inl ⟨ends, rfl⟩⟩
      simp [awaits, FeederState.remaining]
  | err error memory =>
      refine ⟨by simp [awaits], ?_, Or.inr ⟨error, ends, rfl⟩⟩
      simp [awaits, FeederState.remaining]
  | panic cause =>
      intro result back
      rw [awaits] at back
      cases back

theorem Tracks.step {ending : Ending ι τ σ ε} {action : Action} (tracks : work.Tracks ending s)
    (stepped : work.step action s = some after) : work.Tracks ending after := by
  unfold Worker.step at stepped
  split at stepped
  case h_1 item rest made feeder worker =>
    cases stepped
    simp only [Tracks, worker, feeder, FeederState.remaining] at tracks ⊢
    exact ⟨by simp, tracks.2⟩
  case h_2 => cases stepped
  case h_3 feeder notCrashed =>
    cases stepped
    cases worker : s.worker with
    | receiving | handling | reporting =>
        simp only [Tracks, worker, feeder, FeederState.remaining] at tracks ⊢
        exact ⟨by simp, tracks.2⟩
    | gone => simp [Tracks, worker, feeder] at tracks
    | crashed => exact absurd worker notCrashed
  case h_4 made item worker =>
    cases stepped
    simp only [Tracks, worker] at tracks
    exact Tracks.afterCheck tracks.1 tracks.2
  case h_5 made feeder worker =>
    cases stepped
    simp only [Tracks, worker, feeder, FeederState.remaining] at tracks
    exact Tracks.afterLast feeder tracks.2
  case h_6 result feeder worker =>
    cases stepped
    simp only [Tracks, worker, feeder, FeederState.remaining] at tracks ⊢
    exact ⟨result, rfl, tracks.2⟩
  case h_7 => cases stepped

/-- Whatever the parties have done, they are on the way to the ending of the items. -/
theorem Reaches.tracks (reached : work.Reaches items memory s) :
    work.Tracks (work.drive 0 work.start items memory) s := by
  induction reached with
  | start => exact ⟨by simp [parties], rfl⟩
  | step action _ stepped tracks => exact tracks.step stepped

/-! ## Blocking -/

/-- The states from which the parties can go on to a state. -/
inductive Leads (work : Worker ι τ σ ε π) : Parties ι τ σ ε → Parties ι τ σ ε → Prop
  | refl (s : Parties ι τ σ ε) : Leads work s s
  | head {before middle after : Parties ι τ σ ε} (action : Action)
      (steps : work.step action before = some middle) (leads : Leads work middle after) :
      Leads work before after

theorem Leads.reaches (leads : work.Leads s after) (reached : work.Reaches items memory s) :
    work.Reaches items memory after := by
  induction leads with
  | refl => exact reached
  | head action stepped _ induction => exact induction (reached.step action stepped)

theorem Leads.trans {first middle last : Parties ι τ σ ε} (before : work.Leads first middle)
    (later : work.Leads middle last) : work.Leads first last := by
  induction before with
  | refl => exact later
  | head action stepped _ induction => exact .head action stepped (induction later)

/-- The worker takes an item and looks at the clock. -/
theorem leads_afterCheck (made : τ) (item : ι) (checks : Nat) :
    work.Leads ⟨.sending (item :: items), .receiving made, checks, memory⟩
      (work.afterCheck made item ⟨.sending items, .handling made item, checks, memory⟩) :=
  .head .handOver rfl (.head .handle rfl (.refl _))

/-- The worker gets to the end of the items, or to the item at which it stops. -/
theorem leads_drive (work : Worker ι τ σ ε π) (items : List ι) (memory : σ) (checks : Nat)
    (made : τ) :
    match work.drive checks made items memory with
    | .handled final last =>
        ∃ checked, work.Leads ⟨.sending items, .receiving made, checks, memory⟩
          ⟨.sending [], .receiving final, checked, last⟩
    | .stopped error last rest =>
        ∃ checked, work.Leads ⟨.sending items, .receiving made, checks, memory⟩
          ⟨.sending rest, .reporting (some error), checked, last⟩
    | .crashed => True := by
  induction items generalizing checks made memory with
  | nil => exact ⟨checks, .refl _⟩
  | cons item items induction =>
      have leads : work.Leads ⟨.sending (item :: items), .receiving made, checks, memory⟩ _ :=
        leads_afterCheck made item checks
      rw [drive]
      unfold Worker.afterCheck at leads
      by_cases expired : work.expired checks = true
      · rw [if_pos expired] at leads ⊢
        exact ⟨_, leads⟩
      · rw [if_neg expired] at leads ⊢
        cases handles : work.handle made item memory with
        | ok value after =>
            simp only [handles] at leads ⊢
            have goesOn := induction after (checks + 1) value
            cases driven : work.drive (checks + 1) value items after with
            | handled final last =>
                simp only [driven] at goesOn ⊢
                obtain ⟨checked, later⟩ := goesOn
                exact ⟨checked, leads.trans later⟩
            | stopped error last rest =>
                simp only [driven] at goesOn ⊢
                obtain ⟨checked, later⟩ := goesOn
                exact ⟨checked, leads.trans later⟩
            | crashed => trivial
        | err error after =>
            simp only [handles] at leads ⊢
            exact ⟨_, leads⟩
        | panic cause => trivial

theorem exists_returned {made : τ} {last final : σ}
    (driven : work.drive 0 work.start items memory = .handled made last)
    (finishes : work.finish made last = .ok () final) :
    ∃ s, work.Reaches items memory s ∧ s.feeder = .returned none ∧ s.memory = final := by
  have leads := work.leads_drive items memory 0 work.start
  rw [driven] at leads
  obtain ⟨checked, leads⟩ := leads
  have closed : work.step .close ⟨.sending [], .receiving made, checked, last⟩ =
    some ⟨.awaiting, .receiving made, checked, last⟩ := rfl
  have seen : work.step .seeClosed ⟨.awaiting, .receiving made, checked, last⟩ =
      some ⟨.awaiting, .reporting none, checked, final⟩ := by
    simp only [Worker.step, Worker.afterLast, finishes]
  have reported : work.step .report ⟨.awaiting, .reporting none, checked, final⟩ =
    some ⟨.returned none, .gone, checked, final⟩ := rfl
  have reached := (((leads.reaches .start).step .close closed).step .seeClosed seen).step
    .report reported
  exact ⟨_, reached, rfl, rfl⟩

/-- The parties can block each other exactly if the worker stops before the last item. -/
theorem blocked_iff :
    (∃ s, work.Reaches items memory s ∧ s.Blocked) ↔
      ∃ error last item rest,
        work.drive 0 work.start items memory = .stopped error last (item :: rest) := by
  constructor
  · rintro ⟨s, reached, item, rest, error, feeder, worker⟩
    have tracks := reached.tracks
    simp only [Tracks, worker, feeder, FeederState.remaining] at tracks
    obtain ⟨stoppedAt, driven, _⟩ := tracks.2.stopped
    exact ⟨stoppedAt, s.memory, item, rest, driven⟩
  · rintro ⟨error, last, item, rest, driven⟩
    have leads := work.leads_drive items memory 0 work.start
    rw [driven] at leads
    obtain ⟨checked, leads⟩ := leads
    exact ⟨_, leads.reaches .start, item, rest, error, rfl, rfl⟩

/-- Unless they block each other, the parties go on until the feeder has its result or the
worker has crashed. -/
theorem Reaches.goes_on (reached : work.Reaches items memory s) (free : ¬ s.Blocked)
    (running : s.worker ≠ .crashed) (waits : ∀ result, s.feeder ≠ .returned result) :
    ∃ action, (work.step action s).isSome = true := by
  have tracks := reached.tracks
  cases worker : s.worker with
  | receiving made =>
      cases feeder : s.feeder with
      | sending items =>
          cases items with
          | nil => exact ⟨.close, by simp [Worker.step, feeder, worker]⟩
          | cons item rest => exact ⟨.handOver, by simp [Worker.step, feeder, worker]⟩
      | awaiting => exact ⟨.seeClosed, by simp [Worker.step, feeder, worker]⟩
      | returned result => exact absurd feeder (waits result)
  | handling made item => exact ⟨.handle, by simp [Worker.step, worker]⟩
  | reporting result =>
      cases feeder : s.feeder with
      | sending items =>
          cases items with
          | nil => exact ⟨.close, by simp [Worker.step, feeder, worker]⟩
          | cons item rest =>
              simp only [Tracks, worker, feeder, FeederState.remaining] at tracks
              obtain ⟨error, _, isError⟩ := tracks.2.stopped
              rw [isError] at worker
              exact absurd ⟨item, rest, error, feeder, worker⟩ free
      | awaiting => exact ⟨.report, by simp [Worker.step, feeder, worker]⟩
      | returned result => exact absurd feeder (waits result)
  | gone =>
      simp only [Tracks, worker] at tracks
      obtain ⟨result, returned, _⟩ := tracks
      exact absurd returned (waits result)
  | crashed => exact absurd worker running

theorem Reaches.reports {result : Option ε} (reached : work.Reaches items memory s)
    (back : s.feeder = .returned result) :
    work.Reports (work.drive 0 work.start items memory) result s.memory [] := by
  have tracks := reached.tracks
  cases worker : s.worker with
  | receiving | handling | reporting =>
      simp only [Tracks, worker] at tracks
      exact absurd back (tracks.1 result)
  | crashed =>
      simp only [Tracks, worker] at tracks
      exact absurd back (tracks result)
  | gone =>
      simp only [Tracks, worker, back] at tracks
      obtain ⟨_, same, reports⟩ := tracks
      cases same
      exact reports

/-! ## Where the worker stops -/

theorem drive_append {checks : Nat} {made : τ} {done rest : List ι} :
    work.drive checks made (done ++ rest) memory =
      match work.drive checks made done memory with
      | .handled made reached => work.drive (checks + done.length) made rest reached
      | .stopped error last left => .stopped error last (left ++ rest)
      | .crashed => .crashed := by
  induction done generalizing checks made memory with
  | nil => rfl
  | cons item done induction =>
      rw [List.cons_append, drive, drive]
      split
      next => rfl
      next =>
        split
        next =>
          rw [induction, List.length_cons, Nat.add_assoc, Nat.add_comm 1]
        next => rfl
        next => rfl

theorem drive_eq_handled_iff {checks : Nat} {made final : τ} {last : σ} :
    work.drive checks made items memory = .handled final last ↔
      (∀ index, index < items.length → work.expired (checks + index) = false) ∧
        items.foldlM work.handle made memory = .ok final last := by
  induction items generalizing checks made memory with
  | nil => simp [drive]
  | cons item items induction =>
      rw [drive, List.foldlM_cons, Prog.bind_apply]
      split
      next expired =>
        constructor
        · intro handled
          cases handled
        · intro lasts
          have first := lasts.1 0 (by simp)
          rw [Nat.add_zero, expired] at first
          cases first
      next notExpired =>
        have now : work.expired checks = false := by simpa using notExpired
        have later : (∀ index, index < (item :: items).length →
            work.expired (checks + index) = false) ↔
            ∀ index, index < items.length → work.expired (checks + 1 + index) = false := by
          constructor
          · intro lasts index bound
            have := lasts (index + 1) (by simp [bound])
            rwa [Nat.add_comm index, ← Nat.add_assoc] at this
          · intro lasts index bound
            cases index with
            | zero => exact now
            | succ index =>
                have := lasts index (by simpa using bound)
                rwa [Nat.add_assoc, Nat.add_comm 1] at this
        rw [later]
        cases work.handle made item memory with
        | ok value after => exact induction
        | err error after => simp
        | panic cause => simp

/-- A worker that crashes would crash without a clock. -/
theorem panics_of_drive {checks : Nat} {made : τ}
    (driven : work.drive checks made items memory = .crashed) :
    ∃ cause, items.foldlM work.handle made memory = .panic cause := by
  induction items generalizing checks made memory with
  | nil => cases driven
  | cons item items induction =>
      rw [drive] at driven
      rw [List.foldlM_cons, Prog.bind_apply]
      split at driven
      next => cases driven
      next =>
        split at driven
        next value after handles =>
          rw [handles, Outcome.ok_andThen]
          exact induction driven
        next => cases driven
        next cause handles =>
          rw [handles]
          exact ⟨cause, rfl⟩

/-- The worker stops at the first item that comes too late or is refused. -/
theorem drive_eq_stopped_iff {checks : Nat} {made : τ} {error : ε} {last : σ} {rest : List ι} :
    work.drive checks made items memory = .stopped error last rest ↔
      ∃ done item final reached, items = done ++ item :: rest ∧
        work.drive checks made done memory = .handled final reached ∧
        (work.expired (checks + done.length) = true ∧ error = work.cancelled ∧ last = reached ∨
          work.expired (checks + done.length) = false ∧
            work.handle final item reached = .err error last) := by
  constructor
  · intro stops
    induction items generalizing checks made memory with
    | nil => cases stops
    | cons item items induction =>
        rw [drive] at stops
        split at stops
        next expired =>
          cases stops
          exact ⟨[], item, made, _, rfl, rfl, Or.inl ⟨expired, rfl, rfl⟩⟩
        next notExpired =>
          split at stops
          next value after handles =>
            obtain ⟨done, other, final, reached, rfl, handled, why⟩ := induction stops
            refine ⟨item :: done, other, final, reached, rfl, ?_, ?_⟩
            · rw [drive, if_neg notExpired]
              simp only [handles]
              exact handled
            · rw [List.length_cons, Nat.add_comm done.length, ← Nat.add_assoc]
              exact why
          next handles =>
            cases stops
            exact ⟨[], item, made, memory, rfl, rfl, Or.inr ⟨by simpa using notExpired, handles⟩⟩
          next => cases stops
  · rintro ⟨done, item, final, reached, rfl, handled, why⟩
    rw [drive_append, handled]
    simp only [drive]
    rcases why with ⟨expired, rfl, rfl⟩ | ⟨notExpired, refuses⟩
    · rw [if_pos expired]
    · rw [if_neg (by simp [notExpired])]
      simp only [refuses]

/-- The worker stops before the last item exactly if it stops at one of the others. -/
theorem stops_early_iff {checks : Nat} {made : τ} {final : ι} :
    (∃ error last item rest,
        work.drive checks made (items ++ [final]) memory = .stopped error last (item :: rest)) ↔
      ∃ error last rest, work.drive checks made items memory = .stopped error last rest := by
  rw [drive_append]
  cases driven : work.drive checks made items memory with
  | handled value reached =>
      simp only [drive]
      split
      next => simp
      next =>
        cases work.handle value final reached with
        | ok | err | panic => simp
  | stopped error last rest =>
      constructor
      · intro _
        exact ⟨error, last, rest, rfl⟩
      · intro _
        cases rest with
        | nil => exact ⟨error, last, final, [], rfl⟩
        | cons item rest => exact ⟨error, last, item, rest ++ [final], rfl⟩
  | crashed => simp

end Worker

end HandOff
