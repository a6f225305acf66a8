import Coolbeans.JobHeapSteps

/-!
# The outcomes of calls

What a round of each loop comes to, by what it finds first: the loop of `KickN`, the inner loop
of `tickDelayJobs`, and the two loops of `tickClients`.  And what a request of a client comes to,
by what is known of the client.
-/

namespace Coolbeans

open StatefulProgram

variable {jsm : JSM} {entry rounds : Nat}

/-! ## `KickN` -/

section Kick

variable {tubeName : TubeName} {count : Int64}

theorem kickLoop_of_none (head : (jsm.heapAt (.buried tubeName)).head? = none) :
    kickLoop tubeName (rounds + 1) count jsm = .ok count jsm := by
  rw [kickLoop, Prog.bind_apply, peekBuriedJob, nextBuriedJob, attempt_peekAt, head]
  rfl

theorem kickLoop_of_some (head : (jsm.heapAt (.buried tubeName)).head? = some entry) :
    kickLoop tubeName (rounds + 1) count jsm =
      (kick (jsm.jobOf entry).id >>= fun _ => kickLoop tubeName rounds (count + 1)) jsm := by
  rw [kickLoop, Prog.bind_apply, peekBuriedJob, nextBuriedJob, attempt_peekAt, head]
  rfl

end Kick

/-! ## `tickDelayJobs` -/

section Delay

variable {now nextDelayedTickAt : Int64} {tubeName : TubeName}

theorem tickDelayTube_of_none (head : (jsm.heapAt (.delayed tubeName)).head? = none) :
    tickDelayTube now tubeName (rounds + 1) nextDelayedTickAt jsm =
      .ok nextDelayedTickAt jsm := by
  rw [tickDelayTube, Prog.bind_apply, peekDelayedJob, nextDelayedJob, attempt_peekAt, head]
  rfl

theorem tickDelayTube_of_early (head : (jsm.heapAt (.delayed tubeName)).head? = some entry)
    (early : now ≤ (jsm.jobOf entry).readyAt) :
    tickDelayTube now tubeName (rounds + 1) nextDelayedTickAt jsm =
      .ok (if (jsm.jobOf entry).readyAt < nextDelayedTickAt then (jsm.jobOf entry).readyAt
        else nextDelayedTickAt) jsm := by
  rw [tickDelayTube, Prog.bind_apply, peekDelayedJob, nextDelayedJob, attempt_peekAt, head,
    Outcome.ok_andThen]
  dsimp only
  rw [Prog.gets_bind, if_pos early]
  rfl

theorem tickDelayTube_of_due (head : (jsm.heapAt (.delayed tubeName)).head? = some entry)
    (due : (jsm.jobOf entry).readyAt < now) :
    tickDelayTube now tubeName (rounds + 1) nextDelayedTickAt jsm =
      (Prog.orCrash .ready (ready (jsm.jobOf entry).id) >>= fun _ =>
        tickDelayTube now tubeName rounds nextDelayedTickAt) jsm := by
  rw [tickDelayTube, Prog.bind_apply, peekDelayedJob, nextDelayedJob, attempt_peekAt, head,
    Outcome.ok_andThen]
  dsimp only
  rw [Prog.gets_bind, if_neg (Int64.not_le.mpr due), Prog.bind_apply, Prog.bind_apply, Prog.attempt,
    Prog.orCrash]
  cases ready (jsm.jobOf entry).id jsm <;> rfl

end Delay

/-! ## `tickClients` -/

section Clients

variable {nowSecs : Int64} {cli : CliPtr} {result : List Reservation}

theorem tickClientJobs_of_none (head : (jsm.heapAt (.reserved cli.cliID)).head? = none) :
    tickClientJobs nowSecs cli (rounds + 1) result jsm = .ok result jsm := by
  rw [tickClientJobs, Prog.bind_apply, nextReservedJob, attempt_peekAt, head]
  rfl

section First

variable (head : (jsm.heapAt (.reserved cli.cliID)).head? = some entry)

include head

theorem tickClientJobs_of_expired (expired : (jsm.jobOf entry).expiresAt < nowSecs) :
    tickClientJobs nowSecs cli (rounds + 1) result jsm =
      (Prog.orCrash .release (release (jsm.jobOf entry).id cli.cliID) >>= fun _ =>
        tickClientJobs nowSecs cli rounds result) jsm := by
  rw [tickClientJobs, Prog.bind_apply, nextReservedJob, attempt_peekAt, head, Outcome.ok_andThen]
  dsimp only
  rw [Prog.gets_bind, readClient_bind, if_pos expired, Prog.bind_apply, Prog.bind_apply,
    Prog.attempt, Prog.orCrash]
  cases release (jsm.jobOf entry).id cli.cliID jsm <;> rfl

theorem tickClientJobs_of_soon (unexpired : ¬ (jsm.jobOf entry).expiresAt < nowSecs)
    (soon : (jsm.jobOf entry).expiresAt - 1 < nowSecs ∧
      (jsm.clientAt cli).isWaitingForResv = true) :
    tickClientJobs nowSecs cli (rounds + 1) result jsm =
      (unReserve cli >>= fun _ => tickClientJobs nowSecs cli rounds
        (result ++ [emptyReservation cli (jsm.clientAt cli).reqID .deadlineSoon])) jsm := by
  rw [tickClientJobs, Prog.bind_apply, nextReservedJob, attempt_peekAt, head, Outcome.ok_andThen]
  dsimp only
  rw [Prog.gets_bind, readClient_bind, if_neg unexpired, if_pos soon]

theorem tickClientJobs_of_quiet (unexpired : ¬ (jsm.jobOf entry).expiresAt < nowSecs)
    (quiet : ¬ ((jsm.jobOf entry).expiresAt - 1 < nowSecs ∧
      (jsm.clientAt cli).isWaitingForResv = true)) :
    tickClientJobs nowSecs cli (rounds + 1) result jsm = .ok result jsm := by
  rw [tickClientJobs, Prog.bind_apply, nextReservedJob, attempt_peekAt, head, Outcome.ok_andThen]
  dsimp only
  rw [Prog.gets_bind, readClient_bind, if_neg unexpired, if_neg quiet]
  rfl

end First

theorem tickClientsLoop_of_none (head : jsm.clientHeap.head? = none) :
    tickClientsLoop nowSecs (rounds + 1) result jsm = .ok result jsm := by
  rw [tickClientsLoop, Prog.gets_bind, head]
  rfl

theorem tickClientsLoop_of_early (head : jsm.clientHeap.head? = some cli)
    (early : nowSecs ≤ (jsm.clientAt cli).tickAt) :
    tickClientsLoop nowSecs (rounds + 1) result jsm = .ok result jsm := by
  rw [tickClientsLoop, Prog.gets_bind, head]
  dsimp only
  rw [readClient_bind, if_pos early]
  rfl

theorem tickClientsLoop_of_due (head : jsm.clientHeap.head? = some cli)
    (due : (jsm.clientAt cli).tickAt < nowSecs) :
    tickClientsLoop nowSecs (rounds + 1) result jsm =
      (clientHeapDequeue >>= fun first => tickClient nowSecs first result >>=
        tickClientsLoop nowSecs rounds) jsm := by
  rw [tickClientsLoop, Prog.gets_bind, head]
  dsimp only
  rw [readClient_bind, if_neg (Int64.not_le.mpr due)]

end Clients

/-! ## Requests of clients -/

/-- A client is registered with its request, or has been registered before and gets a new
request; a client that waits gets none. -/
inductive Registers (clientId : ClientID) (reqID : ReqID) (watchedTubes : List TubeName)
    (resvDeadlineAt : Int64) (jsm : JSM) : Outcome JSM Err Panic CliPtr → Prop where
  | new {clients : ClientResvQueue} (absent : ∀ cli ∈ jsm.clients.entries, cli.cliID ≠ clientId)
      (entries : clients.entries = jsm.clients.entries ++ [⟨clientId, jsm.nextClient⟩]) :
      Registers clientId reqID watchedTubes resvDeadlineAt jsm
        (.ok ⟨clientId, jsm.nextClient⟩
          { jsm with
            clientAt := fun read =>
              if read = ⟨clientId, jsm.nextClient⟩ then
                { watchedTubes, resvDeadlineAt, reqID
                  isWaitingForResv := true
                  tickAt := 0
                  heapIndex := -1 }
              else jsm.clientAt read
            nextClient := jsm.nextClient + 1
            clients })
  | known {cli : CliPtr} (registered : cli ∈ jsm.clients.entries) (sameId : cli.cliID = clientId)
      (idle : (jsm.clientAt cli).isWaitingForResv = false) :
      Registers clientId reqID watchedTubes resvDeadlineAt jsm
        (.ok cli (jsm.updateClient cli fun record =>
          { record with reqID, watchedTubes, resvDeadlineAt, isWaitingForResv := true }))
  | refused {cli : CliPtr} (registered : cli ∈ jsm.clients.entries)
      (sameId : cli.cliID = clientId) (waiting : (jsm.clientAt cli).isWaitingForResv = true) :
      Registers clientId reqID watchedTubes resvDeadlineAt jsm
        (.err .clientIsWaitingForReservation jsm)

theorem registers_registerClient (clientId : ClientID) (reqID : ReqID)
    (watchedTubes : List TubeName) (resvDeadlineAt : Int64) (jsm : JSM) :
    Registers clientId reqID watchedTubes resvDeadlineAt jsm
      (registerClient clientId reqID watchedTubes resvDeadlineAt jsm) := by
  unfold registerClient
  rw [Prog.bind_apply]
  cases found : jsm.clients.find clientId with
  | error error =>
      obtain ⟨rfl, absent⟩ := (jsm.clients.find_eq_error_iff clientId error).mp found
      have missing : findClient clientId jsm = .err .entryMissing jsm := by
        simp only [findClient, found]
      obtain ⟨clients, accepted, entries⟩ :=
        jsm.clients.enqueue_of_absent ⟨clientId, jsm.nextClient⟩ absent
      rw [Prog.attempt_of_err missing, Outcome.ok_andThen]
      dsimp only
      rw [Prog.bind_apply, allocClient, Prog.gets_bind, Prog.bind_apply, Prog.modify_apply,
        Outcome.ok_andThen, Prog.pure_apply, Outcome.ok_andThen, Prog.bind_apply, enqueueClient]
      simp only [accepted, Outcome.ok_andThen, Prog.pure_apply]
      exact .new absent entries
  | ok cli =>
      obtain ⟨registered, sameId⟩ := (jsm.clients.find_eq_ok_iff clientId cli).mp found
      have finds : findClient clientId jsm = .ok cli jsm := by
        simp only [findClient, found]
      rw [Prog.attempt_of_ok finds, Outcome.ok_andThen]
      dsimp only
      rw [readClient_bind, Prog.bind_apply, Prog.require_apply]
      split
      next idle => exact .known registered sameId idle
      next waiting => exact .refused registered sameId (by simpa using waiting)

end Coolbeans
