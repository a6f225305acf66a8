import Coolbeans.ClientLoops
import Coolbeans.ExactContainers
import Coolbeans.MatchOrder

/-!
# A tick returns

When jobs are touched by their owners only, the reserved heaps are exact: the first job on the
heap of a client can be released, and nothing stops the processing of the clients.  Then a tick
returns, whatever the clocks of the run have been, and all its answers are to clients that wait.
-/

namespace Coolbeans

open StatefulProgram

theorem AnyRunOk.tickClients_returns {jsm : JSM} (ok : AnyRunOk jsm)
    (owned : JobsOk .ownTouches jsm) (nowSecs : Int64) :
    ∃ resvs after, tickClients nowSecs jsm = .ok resvs after := by
  have halts : (tickClients nowSecs jsm).Halts _ _ :=
    halts_tickClientsLoop _ [] ok (jsm.dueCount_lt nowSecs)
  obtain ⟨resvs, after, returns, _⟩ := halts.returns fun _ panics => panics.2 owned
  exact ⟨resvs, after, returns⟩

/-! ## The stages -/

section Stages

variable {jsm : JSM}

theorem AnyRunOk.tick_returns (ok : AnyRunOk jsm) (owned : JobsOk .ownTouches jsm)
    (nowSecs : Int64) (walk : TubeWalk) :
    ∃ resvs after, tick nowSecs walk jsm = .ok resvs after := by
  have rules : TickRules nowSecs (NobodyCame jsm) _ := tickRules_nobodyCame jsm
  have delayedExact : Kinds.ownTouches .delayed := by simp [Kinds.ownTouches]
  obtain ⟨_, woken, wakes, done, isWoken⟩ := (((ends_tickDelayStage owned delayedExact walk).and
    (rules.keeps_tickDelayStage walk jsm (.refl ok))).mono (fun _ _ kept => kept)
    (fun _ _ fails => fails.1) fun panics => panics.1).returns
  obtain ⟨pairs, served, _, _, _, serves⟩ :=
    serving_inLine.exists_tickReadyJobs (Or.inl rfl) isWoken.inLine walk
  have isServed := rules.keeps_tickReadyJobs walk woken isWoken
  rw [serves] at isServed
  have stillOwned := (Along.tickRules delayedExact nowSecs walk).keeps_tickReadyJobs walk woken
    (Along.refl done.jobs (.tick nowSecs walk))
  rw [serves] at stillOwned
  obtain ⟨answers, after, answered⟩ :=
    isServed.toAnyRunOk.tickClients_returns stillOwned.jobs nowSecs
  refine ⟨matchedReservations woken pairs ++ answers, after, ?_⟩
  unfold tick
  rw [Prog.bind_apply, wakes, Outcome.ok_andThen, Prog.bind_apply, serves, Outcome.ok_andThen,
    Prog.bind_apply, answered, Outcome.ok_andThen, Prog.pure_apply]

theorem AnyRunOk.tick_answers (ok : AnyRunOk jsm) (owned : JobsOk .ownTouches jsm)
    (nowSecs : Int64) (walk : TubeWalk) :
    ∃ resvs after, tick nowSecs walk jsm = .ok resvs after ∧
      ∀ resv ∈ resvs, ∃ cli, (jsm.clientAt cli).isWaitingForResv = true ∧
        resv.clientId = cli.cliID := by
  obtain ⟨resvs, after, returns⟩ := ok.tick_returns owned nowSecs walk
  have tells : Tells (NobodyCame jsm) fun resv => ∃ cli,
      (jsm.clientAt cli).isWaitingForResv = true ∧ resv.clientId = cli.cliID :=
    fun _ cli _ nobodyCame waiting isClient => ⟨cli, nobodyCame.waits cli waiting, isClient⟩
  have rules : TickRules nowSecs (NobodyCame jsm) _ := tickRules_nobodyCame jsm
  have answers := rules.ends_tick tells walk (.refl ok)
  rw [returns] at answers
  exact ⟨resvs, after, returns, answers.2⟩

end Stages

end Coolbeans
