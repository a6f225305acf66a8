import Coolbeans.CallOutcomes

/-!
# Rules for invariants

The operations that match clients with jobs are long programs made of few kinds of steps: a
job moves, or something is written to the half of the state that belongs to the clients.  An
invariant that the steps keep is kept by the programs.  The steps that a program makes under
a condition come with that condition: a job is woken only when it is due, and released by
the clock only when its reservation has expired.
-/

namespace Coolbeans

open PositionHeap StatefulProgram

variable {inv : JSM → Prop}

/-! ## Reading -/

theorem keeps_readClient (cli : CliPtr) : Prog.Keeps inv (readClient cli) :=
  Prog.keeps_gets _

theorem keeps_findClient (clientID : ClientID) : Prog.Keeps inv (findClient clientID) := by
  intro jsm holds
  unfold findClient
  split <;> exact holds

theorem keeps_peekAt (key : HeapKey) : Prog.Keeps inv (peekAt key) := by
  intro jsm holds
  unfold peekAt
  split <;> exact holds

theorem keeps_getByName_false (tubeName : TubeName) : Prog.Keeps inv (getByName tubeName false) :=
  (Prog.keeps_gets _).bind fun _ => Prog.keeps_require _ _

theorem keeps_waitQLen (tubeName : TubeName) : Prog.Keeps inv (waitQLen tubeName) :=
  (keeps_getByName_false tubeName).bind fun _ => Prog.keeps_gets _

theorem keeps_dequeueFromWaitQ (tubeName : TubeName) :
    Prog.Keeps inv (dequeueFromWaitQ tubeName) := by
  refine (keeps_getByName_false tubeName).bind fun _ => (Prog.keeps_gets _).bind fun queue => ?_
  split
  · exact Prog.keeps_pure _
  · exact Prog.keeps_fail _

theorem keeps_matchClient (tubeName : TubeName) (cli : Option CliPtr) :
    Prog.Keeps inv (matchClient tubeName cli) := by
  cases cli with
  | some cli => exact Prog.keeps_pure cli
  | none =>
      refine (keeps_dequeueFromWaitQ tubeName).attempt.bind fun found => ?_
      split
      · exact Prog.keeps_crash _
      · exact Prog.keeps_pure _

theorem keeps_jobIndexGet (jobID : JobID) : Prog.Keeps inv (JobIndex.get jobID) := by
  intro jsm holds
  unfold JobIndex.get
  split <;> exact holds

theorem keeps_heapEntry (found : IndexEntry) : Prog.Keeps inv found.heapEntry := by
  unfold IndexEntry.heapEntry
  cases found.entry with
  | none => exact Prog.keeps_crash _
  | some entry => exact Prog.keeps_pure entry

theorem keeps_reservedGuard (error : Err) (clientID : ClientID) (found : IndexEntry)
    (record : Job) : Prog.Keeps inv (reservedGuard error clientID found record) :=
  (Prog.keeps_require _ _).bind fun _ => Prog.keeps_require _ _

theorem keeps_stateGuard (state : JobState) (found : IndexEntry) (record : Job) :
    Prog.Keeps inv (stateGuard state found record) :=
  Prog.keeps_require _ _

theorem keeps_delayedGuard (found : IndexEntry) (record : Job) :
    Prog.Keeps inv (delayedGuard found record) :=
  (Prog.keeps_require _ _).bind fun _ => (keeps_heapEntry found).bind fun _ =>
    (Prog.keeps_gets _).bind fun _ => Prog.keeps_require _ _

theorem keeps_forEach {α : Type} {body : α → JSMProg Unit} (items : List α)
    (round : ∀ item, Prog.Keeps inv (body item)) : Prog.Keeps inv (forEach body items) :=
  Prog.keeps_foldlM items () fun _ item => round item

/-! ## Writing to the client half -/

/-- The writes to the half of the state that belongs to the clients keep the invariant. -/
structure ClientClosed (inv : JSM → Prop) : Prop where
  updateClient : ∀ jsm cli change, inv jsm → inv (jsm.updateClient cli change)
  putClientHeap : ∀ jsm heap, inv jsm → inv (jsm.putClientHeap heap)
  setClients : ∀ jsm clients, inv jsm → inv { jsm with clients := clients }
  setWaiting : ∀ jsm tubeName queue, inv jsm → inv (jsm.setWaiting tubeName queue)
  createTube : ∀ jsm tubeName, inv jsm → inv (jsm.createTube tubeName)
  allocClient : ∀ jsm clientAt nextClient, inv jsm →
    inv { jsm with clientAt := clientAt, nextClient := nextClient }

namespace ClientClosed

variable (closed : ClientClosed inv)

include closed

theorem keeps_updateClient (cli : CliPtr) (change : ClientResvEntry → ClientResvEntry) :
    Prog.Keeps inv (Coolbeans.updateClient cli change) :=
  Prog.keeps_modify fun jsm => closed.updateClient jsm cli change

theorem keeps_clientHeapFix (cli : CliPtr) : Prog.Keeps inv (clientHeapFix cli) := by
  intro jsm holds
  unfold clientHeapFix
  dsimp only
  split
  · trivial
  · exact closed.putClientHeap jsm _ holds

theorem keeps_clientHeapDequeue : Prog.Keeps inv clientHeapDequeue := by
  intro jsm holds
  unfold clientHeapDequeue
  split
  · trivial
  · exact closed.putClientHeap jsm _ holds

theorem keeps_clientHeapRemove (cli : CliPtr) : Prog.Keeps inv (clientHeapRemove cli) := by
  intro jsm holds
  unfold clientHeapRemove
  dsimp only
  split
  · exact holds
  split
  · trivial
  split
  · trivial
  split
  · exact holds
  · exact closed.putClientHeap jsm _ holds

theorem keeps_enqueueClient (cli : CliPtr) : Prog.Keeps inv (enqueueClient cli) := by
  intro jsm holds
  unfold enqueueClient
  split
  · exact closed.setClients jsm _ holds
  · exact holds

theorem keeps_removeClient (cli : CliPtr) : Prog.Keeps inv (removeClient cli) := by
  intro jsm holds
  unfold removeClient
  split
  · exact closed.setClients jsm _ holds
  · exact holds

theorem keeps_allocClient (clientID : ClientID) (record : ClientResvEntry) :
    Prog.Keeps inv (Coolbeans.allocClient clientID record) :=
  (Prog.keeps_gets _).bind fun _ =>
    (Prog.keeps_modify fun jsm => closed.allocClient jsm _ _).bind fun _ => Prog.keeps_pure _

theorem keeps_scheduleClient (cli : CliPtr) (nextTickAt : Int64) :
    Prog.Keeps inv (scheduleClient cli nextTickAt) := by
  refine (keeps_readClient cli).bind fun record => ?_
  split
  · exact (closed.keeps_updateClient cli _).bind fun _ =>
      Prog.keeps_modify fun jsm => closed.putClientHeap jsm _
  · exact (closed.keeps_updateClient cli _).bind fun _ => closed.keeps_clientHeapFix cli

theorem keeps_unscheduleClient (cli : CliPtr) (nextTickAt : Int64) :
    Prog.Keeps inv (unscheduleClient cli nextTickAt) := by
  refine (keeps_readClient cli).bind fun record => ?_
  split
  · refine (closed.keeps_clientHeapRemove cli).attempt.bind fun removed => ?_
    split
    · exact Prog.keeps_crash _
    · refine (closed.keeps_removeClient cli).attempt.bind fun forgotten => ?_
      split
      · exact closed.keeps_updateClient cli _
      · exact Prog.keeps_crash _
      · exact closed.keeps_updateClient cli _
  · exact closed.keeps_updateClient cli _

theorem keeps_updateClientTickAt (cli : CliPtr) : Prog.Keeps inv (updateClientTickAt cli) := by
  refine (keeps_readClient cli).bind fun record => (keeps_peekAt _).attempt.bind fun peeked => ?_
  split
  · dsimp only
    split
    · exact closed.keeps_scheduleClient cli _
    · exact closed.keeps_unscheduleClient cli _
  · exact Prog.keeps_crash _
  · refine (Prog.keeps_gets _).bind fun job => ?_
    dsimp only
    split
    · exact closed.keeps_scheduleClient cli _
    · exact closed.keeps_unscheduleClient cli _

theorem keeps_leaveWaitQ (cli : CliPtr) (tubeName : TubeName) :
    Prog.Keeps inv (leaveWaitQ cli tubeName) := by
  intro jsm holds
  unfold leaveWaitQ
  split
  · trivial
  split
  · trivial
  · exact closed.setWaiting jsm _ _ holds

theorem keeps_unReserve (cli : CliPtr) : Prog.Keeps inv (unReserve cli) :=
  (closed.keeps_updateClient cli _).bind fun _ => (keeps_readClient cli).bind fun record =>
    keeps_forEach record.watchedTubes (closed.keeps_leaveWaitQ cli)

theorem keeps_enqueueToWaitQ (tubeName : TubeName) (cli : CliPtr) :
    Prog.Keeps inv (enqueueToWaitQ tubeName cli) := by
  refine (Prog.keeps_modify fun jsm => closed.createTube jsm tubeName).bind fun _ =>
    (Prog.keeps_gets _).bind fun queue => ?_
  split
  · exact Prog.keeps_modify fun jsm => closed.setWaiting jsm tubeName _
  · exact Prog.keeps_fail _

theorem keeps_joinWaitQ (cli : CliPtr) (tubeName : TubeName) :
    Prog.Keeps inv (joinWaitQ cli tubeName) := by
  refine (closed.keeps_enqueueToWaitQ tubeName cli).attempt.bind fun joined => ?_
  split
  · exact Prog.keeps_crash _
  · exact Prog.keeps_pure _

theorem keeps_registerClient (clientId : ClientID) (reqID : ReqID)
    (watchedTubes : List TubeName) (resvDeadlineAt : Int64) :
    Prog.Keeps inv (registerClient clientId reqID watchedTubes resvDeadlineAt) := by
  refine (keeps_findClient clientId).attempt.bind fun found => ?_
  split
  · exact (closed.keeps_allocClient clientId _).bind fun cli =>
      (closed.keeps_enqueueClient cli).bind fun _ => Prog.keeps_pure _
  · exact Prog.keeps_fail _
  · exact (keeps_readClient _).bind fun record => (Prog.keeps_require _ _).bind fun _ =>
      (closed.keeps_updateClient _ _).bind fun _ => Prog.keeps_pure _

theorem ends_enters {jsm : JSM} (holds : inv jsm) (clientId : ClientID) (reqID : ReqID)
    (watchedTubes : List TubeName) (resvDeadlineAt : Int64) :
    (registerClient clientId reqID watchedTubes resvDeadlineAt jsm).Ends
      (fun cli middle => (forEach (joinWaitQ cli) watchedTubes middle).Ends
        (fun _ after => inv after ∧ True) (fun _ => inv) True) (fun _ => inv) True := by
  refine (closed.keeps_registerClient clientId reqID watchedTubes resvDeadlineAt jsm holds).mono
    (fun cli middle kept => ?_) (fun _ _ => id) id
  exact (keeps_forEach watchedTubes (closed.keeps_joinWaitQ cli) middle kept).mono
    (fun _ _ kept => ⟨kept, trivial⟩) (fun _ _ => id) id

end ClientClosed

/-! ## Taking a job out of a heap -/

/-- The writes of a removal from a heap keep the invariant. -/
structure HeapClosed (inv : JSM → Prop) : Prop where
  putHeap : ∀ jsm key heap, inv jsm → inv (jsm.putHeap key heap)
  cleanup : ∀ jsm tubeName, inv jsm → inv (jsm.cleanup tubeName)
  dropReserved : ∀ jsm clientID, inv jsm → inv (jsm.dropReserved clientID)

namespace HeapClosed

variable (closed : HeapClosed inv)

include closed

theorem keeps_dequeueAt (key : HeapKey) : Prog.Keeps inv (dequeueAt key) := by
  intro jsm holds
  unfold dequeueAt
  split
  · trivial
  · exact closed.putHeap jsm key _ holds

theorem keeps_removeAt (key : HeapKey) (entry : Nat) : Prog.Keeps inv (removeAt key entry) := by
  intro jsm holds
  unfold removeAt
  dsimp only
  split
  · exact holds
  split
  · trivial
  split
  · trivial
  split
  · exact holds
  · exact closed.putHeap jsm key _ holds

theorem keeps_removeTubeJob (key : TubeName → HeapKey) (entry : Nat) :
    Prog.Keeps inv (removeTubeJob key entry) :=
  (Prog.keeps_gets _).bind fun tubeName => (keeps_getByName_false tubeName).bind fun _ =>
    closed.keeps_removeAt (key tubeName) entry

theorem keeps_removeDelayedJob (entry : Nat) : Prog.Keeps inv (removeDelayedJob entry) := by
  refine (Prog.keeps_gets _).bind fun tubeName => (keeps_getByName_false tubeName).bind fun _ =>
    (closed.keeps_removeAt _ entry).attempt.bind fun removed =>
    (Prog.keeps_modify fun jsm => closed.cleanup jsm tubeName).bind fun _ => ?_
  split
  · exact Prog.keeps_pure _
  · exact Prog.keeps_fail _

theorem keeps_removeReservedJob (entry : Nat) : Prog.Keeps inv (removeReservedJob entry) := by
  refine (Prog.keeps_gets _).bind fun clientID => (Prog.keeps_gets _).bind fun present =>
    (Prog.keeps_require _ _).bind fun _ => (Prog.keeps_gets _).bind fun index =>
    Prog.Keeps.bind (Prog.Keeps.attempt ?_) fun removed =>
    (Prog.keeps_modify fun jsm => closed.dropReserved jsm clientID).bind fun _ => ?_
  · split
    · exact closed.keeps_dequeueAt _
    · exact closed.keeps_removeAt _ entry
  · split
    · exact Prog.keeps_pure _
    · exact Prog.keeps_fail _

end HeapClosed

/-! ## Moving a job -/

theorem keeps_moveJob {guard : IndexEntry → Job → JSMProg Unit} {remove : Nat → JSMProg Nat}
    {change : Job → Job} {enqueue : Nat → JSMProg Nat}
    (guards : ∀ found record, Prog.Keeps inv (guard found record))
    (removes : ∀ entry, Prog.Keeps inv (remove entry))
    (changes : ∀ jsm job, inv jsm → inv (jsm.updateJob job change))
    (enqueues : ∀ job, Prog.Keeps inv (enqueue job))
    (indexes : ∀ jsm jobs, inv jsm → inv { jsm with jobs := jobs }) (jobID : JobID) :
    Prog.Keeps inv (moveJob jobID guard remove change enqueue) :=
  (keeps_jobIndexGet jobID).bind fun found => (Prog.keeps_gets _).bind fun record =>
    (guards found record).bind fun _ => (keeps_heapEntry found).bind fun entry =>
    (removes entry).bind fun _ => (Prog.keeps_modify fun jsm => changes jsm found.job).bind fun _ =>
    (enqueues found.job).bind fun _ => Prog.keeps_modify fun jsm => indexes jsm _

theorem keeps_clientAt_reserve (clientAt : CliPtr → ClientResvEntry) (nowSecs : Int64)
    (jobID : JobID) (clientID : ClientID) :
    Prog.Keeps (fun jsm => jsm.clientAt = clientAt) (reserve nowSecs jobID clientID) := by
  have put : ∀ (jsm : JSM) key heap, jsm.clientAt = clientAt →
      (jsm.putHeap key heap).clientAt = clientAt := by
    intro jsm key heap same
    have views := (JobFrame.putHeap jsm key heap).clients
    simp only [JSM.clientView, Prod.mk.injEq] at views
    rw [views.2.2.1, same]
  refine keeps_moveJob (keeps_stateGuard .ready) (fun entry => ?_) (fun _ _ same => same)
    (fun job => ?_) (fun _ _ same => same) jobID
  · refine (Prog.keeps_gets _).bind fun tubeName =>
      (keeps_getByName_false tubeName).bind fun _ => ?_
    intro jsm same
    unfold removeAt
    dsimp only
    split
    · exact same
    split
    · trivial
    split
    · trivial
    split
    · exact same
    · exact put jsm _ _ same
  · intro jsm same
    exact put (jsm.newEntry job) _ _ same

/-! ## Matching -/

/-- What is told to clients that wait in a state with the invariant. -/
def Tells (inv : JSM → Prop) (told : Reservation → Prop) : Prop :=
  ∀ jsm cli resv, inv jsm → (jsm.clientAt cli).isWaitingForResv = true →
    resv.clientId = cli.cliID → told resv

theorem tells_true : Tells inv fun _ => True :=
  fun _ _ _ _ _ _ => trivial

/-- What keeps an invariant while clients are matched with jobs at a clock.  Only clients
that wait leave their queues, and only those that are known get a new clock. -/
structure MatchRules (nowSecs : Int64) (inv : JSM → Prop) (known : CliPtr → Prop) : Prop where
  serve : ∀ jsm tubeName entry clientID, inv jsm →
    (jsm.heapAt (.ready tubeName)).head? = some entry →
    (reserve nowSecs (jsm.jobOf entry).id clientID jsm).Ends (fun _ => inv) (fun _ _ => True) True
  knows : ∀ jsm cli, inv jsm → (jsm.clientAt cli).isWaitingForResv = true → known cli
  unReserve : ∀ jsm cli, inv jsm → (jsm.clientAt cli).isWaitingForResv = true →
    (Coolbeans.unReserve cli jsm).Ends (fun _ => inv) (fun _ => inv) True
  updateClientTickAt : ∀ cli, known cli → Prog.Keeps inv (Coolbeans.updateClientTickAt cli)

/-- The rules for an invariant that does not read the half of the clients. -/
theorem ClientClosed.matchRules (closed : ClientClosed inv) {nowSecs : Int64}
    (serve : ∀ jsm tubeName entry clientID, inv jsm →
      (jsm.heapAt (.ready tubeName)).head? = some entry →
      (reserve nowSecs (jsm.jobOf entry).id clientID jsm).Ends (fun _ => inv) (fun _ _ => True)
        True) : MatchRules nowSecs inv fun _ => True where
  serve := serve
  knows _ _ _ _ := trivial
  unReserve jsm cli holds _ := closed.keeps_unReserve cli jsm holds
  updateClientTickAt cli _ := closed.keeps_updateClientTickAt cli

namespace MatchRules

variable {nowSecs : Int64} {known : CliPtr → Prop} (rules : MatchRules nowSecs inv known)

include rules

/-- Every answer is to a client that waits. -/
theorem ends_reserveFor {told : Reservation → Prop} (tells : Tells inv told) {jsm : JSM}
    (holds : inv jsm) {tubeName : TubeName} {entry : Nat}
    (head : (jsm.heapAt (.ready tubeName)).head? = some entry) (cli : CliPtr) :
    (reserveFor nowSecs entry cli jsm).Ends (fun resv after => inv after ∧ told resv)
      (fun _ => inv) True := by
  unfold reserveFor
  rw [readClient_bind, Prog.bind_apply, Prog.insist_apply]
  split
  next waiting =>
    rw [Outcome.ok_andThen, Prog.gets_bind]
    have serves := (rules.serve jsm tubeName entry cli.cliID holds head).and
      (keeps_clientAt_reserve jsm.clientAt nowSecs (jsm.jobOf entry).id cli.cliID jsm rfl)
    refine Prog.ends_attempt_bind (serves.mono (fun _ _ kept => kept) (fun _ _ _ => trivial)
      fun _ => trivial) ?_
    rintro _ after ⟨kept, sameClients⟩
    refine Prog.ends_bind (rules.unReserve after cli kept (by rw [sameClients]; exact waiting)) ?_
    intro _ left kept
    refine Prog.ends_bind (rules.updateClientTickAt cli (rules.knows jsm cli holds waiting) left
      kept) fun _ final kept => ?_
    exact ⟨kept, tells jsm cli _ holds waiting rfl⟩
  next => trivial

theorem ends_tryReserveJob {told : Reservation → Prop} (tells : Tells inv told)
    (tubeName : TubeName) (cli : Option CliPtr) {jsm : JSM} (holds : inv jsm) :
    (tryReserveJob nowSecs tubeName cli jsm).Ends (fun resv after => inv after ∧ told resv)
      (fun _ => inv) True := by
  refine Prog.ends_bind (keeps_waitQLen tubeName jsm holds) fun n jsm holds =>
    Prog.ends_bind (Prog.keeps_require _ _ jsm holds) fun _ jsm holds => ?_
  rw [Prog.bind_apply, peekReadyJob, nextReadyJob, attempt_peekAt]
  cases head : (jsm.heapAt (.ready tubeName)).head? with
  | none => exact holds
  | some entry =>
      -- the choice of the client leaves the state as it is
      rw [Outcome.ok_andThen]
      have chosen : Prog.Keeps (· = jsm) (matchClient tubeName cli) :=
        keeps_matchClient tubeName cli
      refine Prog.ends_bind ((chosen jsm rfl).mono (fun _ _ same => same)
        (fun _ _ same => same ▸ holds) id) ?_
      intro cli after same
      subst same
      exact rules.ends_reserveFor tells holds head cli

theorem keeps_tryReserveJob (tubeName : TubeName) (cli : Option CliPtr) :
    Prog.Keeps inv (tryReserveJob nowSecs tubeName cli) :=
  fun _ holds => (rules.ends_tryReserveJob tells_true tubeName cli holds).mono
    (fun _ _ kept => kept.1) (fun _ _ => id) id

theorem keeps_firstMatch (cli : CliPtr) (tubeNames : List TubeName) :
    Prog.Keeps inv (firstMatch nowSecs cli tubeNames) := by
  induction tubeNames with
  | nil => exact Prog.keeps_pure none
  | cons tubeName tubeNames induction =>
      refine (rules.keeps_tryReserveJob tubeName (some cli)).attempt.bind fun tried => ?_
      split
      · exact induction
      · exact Prog.keeps_crash _
      · exact Prog.keeps_pure _

/-- A client in its wait queues is served or keeps waiting. -/
theorem keeps_serveOrWait {cli : CliPtr} (isKnown : known cli) (tubeNames : List TubeName)
    (queued : Reservation) :
    Prog.Keeps inv (do
      match ← firstMatch nowSecs cli tubeNames with
      | some resv => pure resv
      | none => do
          Coolbeans.updateClientTickAt cli
          pure queued : JSMProg Reservation) := by
  refine (rules.keeps_firstMatch cli tubeNames).bind fun result => ?_
  split
  · exact Prog.keeps_pure _
  · exact (rules.updateClientTickAt cli isKnown).bind fun _ => Prog.keeps_pure _

theorem ends_tickReadyJobs {told : Reservation → Prop} (tells : Tells inv told)
    (walk : TubeWalk) {jsm : JSM} (holds : inv jsm) :
    (tickReadyJobs nowSecs walk jsm).Ends
      (fun resvs after => inv after ∧ ∀ resv ∈ resvs, told resv) (fun _ => inv) True := by
  have tube : ∀ tubeName rounds result jsm, inv jsm → (∀ resv ∈ result, told resv) →
      (tickReadyTube nowSecs tubeName rounds result jsm).Ends
        (fun resvs after => inv after ∧ ∀ resv ∈ resvs, told resv) (fun _ => inv) True := by
    intro tubeName rounds
    induction rounds with
    | zero => exact fun _ _ _ _ => trivial
    | succ rounds induction =>
        intro result jsm holds sofar
        refine Prog.ends_bind (Prog.ends_attempt
          (fun tried after => inv after ∧ ∀ resv, tried = .ok resv → told resv)
          ((rules.ends_tryReserveJob tells tubeName none holds).mono ?_ ?_ id))
          fun tried after kept => ?_
        · rintro resv after ⟨kept, isTold⟩
          refine ⟨kept, fun other same => ?_⟩
          cases same
          exact isTold
        · exact fun _ _ kept => ⟨kept, fun _ impossible => by cases impossible⟩
        · split
          · exact ⟨kept.1, sofar⟩
          · trivial
          · exact induction _ after kept.1 (List.forall_mem_append.mpr
              ⟨sofar, List.forall_mem_singleton.mpr (kept.2 _ rfl)⟩)
  refine Prog.ends_bind (Prog.keeps_gets _ jsm holds) fun names jsm holds => ?_
  refine Prog.ends_foldlM (walk.ready names)
    (fun _ resvs after => inv after ∧ ∀ resv ∈ resvs, told resv) ?_ ⟨holds, by simp⟩
  intro _ tubeName _ result state _ kept
  exact Prog.ends_bind (Prog.keeps_gets _ state kept.1) fun rounds state holds =>
    tube tubeName rounds result state holds kept.2

theorem keeps_tickReadyJobs (walk : TubeWalk) : Prog.Keeps inv (tickReadyJobs nowSecs walk) :=
  fun _ holds => (rules.ends_tickReadyJobs tells_true walk holds).mono
    (fun _ _ kept => kept.1) (fun _ _ => id) id

end MatchRules

/-- The rule for a request: the client enters its wait queues, and from there on an invariant
is kept that depends on the state it has entered. -/
theorem ends_appendReservation_of {post : JSM → Prop} {jsm : JSM} {nowSecs : Int64}
    (refused : post jsm) {clientId : ClientID} {reqID : ReqID} {watchedTubes : List TubeName}
    {resvDeadlineAt : Int64}
    (enters : (registerClient clientId reqID watchedTubes resvDeadlineAt jsm).Ends
      (fun cli middle => (forEach (joinWaitQ cli) watchedTubes middle).Ends
        (fun _ after => ∃ inv known, MatchRules nowSecs inv known ∧ inv after ∧ known cli ∧
          ∀ jsm, inv jsm → post jsm) (fun _ => post) True) (fun _ => post) True) :
    (appendReservation clientId reqID watchedTubes nowSecs resvDeadlineAt jsm).Ends
      (fun _ => post) (fun _ => post) True := by
  unfold appendReservation
  rw [Prog.bind_apply, Prog.require_apply]
  split
  · rw [Outcome.ok_andThen]
    refine Prog.ends_bind enters fun cli middle joins => Prog.ends_bind joins ?_
    rintro _ after ⟨inv, known, rules, kept, isKnown, implies⟩
    exact (rules.keeps_serveOrWait isKnown watchedTubes _ after kept).mono
      (fun _ _ => implies _) (fun _ _ => implies _) id
  · exact refused

/-- An invariant that a client's entrance into its wait queues keeps, and its service. -/
theorem MatchRules.ends_appendReservation {nowSecs : Int64} {known : CliPtr → Prop}
    (rules : MatchRules nowSecs inv known) {jsm : JSM} (holds : inv jsm) {clientId : ClientID}
    {reqID : ReqID} {watchedTubes : List TubeName} {resvDeadlineAt : Int64}
    (enters : (registerClient clientId reqID watchedTubes resvDeadlineAt jsm).Ends
      (fun cli middle => (forEach (joinWaitQ cli) watchedTubes middle).Ends
        (fun _ after => inv after ∧ known cli) (fun _ => inv) True) (fun _ => inv) True) :
    (appendReservation clientId reqID watchedTubes nowSecs resvDeadlineAt jsm).Ends
      (fun _ => inv) (fun _ => inv) True := by
  refine ends_appendReservation_of holds (enters.mono (fun cli middle joins => ?_)
    (fun _ _ => id) id)
  refine joins.mono ?_ (fun _ _ => id) id
  rintro _ after ⟨kept, isKnown⟩
  exact ⟨inv, known, rules, kept, isKnown, fun _ => id⟩

/-! ## The clock -/

/-- What keeps an invariant while the clock ticks. -/
structure TickRules (nowSecs : Int64) (inv : JSM → Prop) (known : CliPtr → Prop) : Prop
    extends MatchRules nowSecs inv known where
  timer : ∀ jsm tickAt, inv jsm → inv { jsm with nextDelayTickAt := tickAt }
  wake : ∀ jsm tubeName entry, inv jsm → (jsm.heapAt (.delayed tubeName)).head? = some entry →
    (jsm.jobOf entry).readyAt < nowSecs →
    (ready (jsm.jobOf entry).id jsm).Ends (fun _ => inv) (fun _ _ => True) True
  expire : ∀ jsm clientID entry, inv jsm →
    (jsm.heapAt (.reserved clientID)).head? = some entry →
    (jsm.jobOf entry).expiresAt < nowSecs →
    (release (jsm.jobOf entry).id clientID jsm).Ends (fun _ => inv) (fun _ _ => True) True
  clientHeapDequeue : ∀ jsm, inv jsm →
    (Coolbeans.clientHeapDequeue jsm).Ends (fun cli after => inv after ∧ known cli)
      (fun _ => inv) True

/-- The clock takes clients off the client heap. -/
theorem ClientClosed.ends_clientHeapDequeue (closed : ClientClosed inv) (jsm : JSM)
    (holds : inv jsm) :
    (clientHeapDequeue jsm).Ends (fun _ after => inv after ∧ True) (fun _ => inv) True :=
  (closed.keeps_clientHeapDequeue jsm holds).mono (fun _ _ kept => ⟨kept, trivial⟩)
    (fun _ _ => id) id

namespace TickRules

variable {nowSecs : Int64} {known : CliPtr → Prop} (rules : TickRules nowSecs inv known)

include rules

theorem keeps_tickDelayTube (tubeName : TubeName) (rounds : Nat) (nextDelayedTickAt : Int64) :
    Prog.Keeps inv (tickDelayTube nowSecs tubeName rounds nextDelayedTickAt) := by
  induction rounds generalizing nextDelayedTickAt with
  | zero => exact Prog.keeps_crash _
  | succ rounds induction =>
      intro jsm holds
      cases head : (jsm.heapAt (.delayed tubeName)).head? with
      | none =>
          rw [tickDelayTube_of_none head]
          exact holds
      | some entry =>
          by_cases early : nowSecs ≤ (jsm.jobOf entry).readyAt
          · rw [tickDelayTube_of_early head early]
            exact holds
          · have due := Int64.not_le.mp early
            rw [tickDelayTube_of_due head due]
            have woken := rules.wake jsm tubeName entry holds head due
            exact Prog.ends_bind (Prog.ends_orCrash _ woken) fun _ after kept =>
              induction nextDelayedTickAt after kept

theorem keeps_tickDelayStage (walk : TubeWalk) :
    Prog.Keeps inv (tickDelayStage nowSecs walk) := by
  refine (Prog.keeps_gets _).bind fun nextDelayTickAt => ?_
  split
  · refine (Prog.keeps_modify fun jsm => rules.timer jsm maxTime).bind fun _ => ?_
    refine (Prog.keeps_gets _).bind fun names => (Prog.keeps_foldlM _ _ fun clock tubeName =>
      (Prog.keeps_gets _).bind fun rounds => rules.keeps_tickDelayTube tubeName rounds clock).bind
      fun clock => Prog.keeps_modify fun jsm => rules.timer jsm clock
  · exact Prog.keeps_pure ()

theorem ends_tickClientJobs {told : Reservation → Prop} (tells : Tells inv told) (cli : CliPtr)
    (rounds : Nat) {result : List Reservation} {jsm : JSM} (holds : inv jsm)
    (sofar : ∀ resv ∈ result, told resv) :
    (tickClientJobs nowSecs cli rounds result jsm).Ends
      (fun resvs after => inv after ∧ ∀ resv ∈ resvs, told resv) (fun _ => inv) True := by
  induction rounds generalizing result jsm with
  | zero => trivial
  | succ rounds induction =>
      cases head : (jsm.heapAt (.reserved cli.cliID)).head? with
      | none =>
          rw [tickClientJobs_of_none head]
          exact ⟨holds, sofar⟩
      | some entry =>
          by_cases expired : (jsm.jobOf entry).expiresAt < nowSecs
          · rw [tickClientJobs_of_expired head expired]
            exact Prog.ends_bind
              (Prog.ends_orCrash _ (rules.expire jsm cli.cliID entry holds head expired))
              fun _ after kept => induction kept sofar
          by_cases soon : (jsm.jobOf entry).expiresAt - 1 < nowSecs ∧
              (jsm.clientAt cli).isWaitingForResv = true
          · rw [tickClientJobs_of_soon head expired soon]
            refine Prog.ends_bind (rules.unReserve jsm cli holds soon.2) fun _ after kept => ?_
            exact induction kept (List.forall_mem_append.mpr
              ⟨sofar, List.forall_mem_singleton.mpr (tells jsm cli _ holds soon.2 rfl)⟩)
          · rw [tickClientJobs_of_quiet head expired soon]
            exact ⟨holds, sofar⟩

theorem ends_tickClient {told : Reservation → Prop} (tells : Tells inv told) {cli : CliPtr}
    (isKnown : known cli) {result : List Reservation} {jsm : JSM} (holds : inv jsm)
    (sofar : ∀ resv ∈ result, told resv) :
    (tickClient nowSecs cli result jsm).Ends
      (fun resvs after => inv after ∧ ∀ resv ∈ resvs, told resv) (fun _ => inv) True := by
  have deadline : (tickClientDeadline nowSecs cli result jsm).Ends
      (fun resvs after => inv after ∧ ∀ resv ∈ resvs, told resv) (fun _ => inv) True := by
    unfold tickClientDeadline
    rw [readClient_bind]
    split
    next late =>
      refine Prog.ends_bind (rules.unReserve jsm cli holds late.1) fun _ after kept => ⟨kept, ?_⟩
      exact List.forall_mem_append.mpr
        ⟨sofar, List.forall_mem_singleton.mpr (tells jsm cli _ holds late.1 rfl)⟩
    next => exact ⟨holds, sofar⟩
  refine Prog.ends_bind deadline fun more timed done => ?_
  refine Prog.ends_bind (Prog.keeps_gets _ timed done.1) fun rounds jsm holds => ?_
  refine Prog.ends_bind (rules.ends_tickClientJobs tells cli rounds holds done.2)
    fun more quieted done => ?_
  exact Prog.ends_bind (rules.updateClientTickAt cli isKnown quieted done.1)
    fun _ after kept => ⟨kept, done.2⟩

theorem ends_tickClientsLoop {told : Reservation → Prop} (tells : Tells inv told) (rounds : Nat)
    {result : List Reservation} {jsm : JSM} (holds : inv jsm)
    (sofar : ∀ resv ∈ result, told resv) :
    (tickClientsLoop nowSecs rounds result jsm).Ends
      (fun resvs after => inv after ∧ ∀ resv ∈ resvs, told resv) (fun _ => inv) True := by
  induction rounds generalizing result jsm with
  | zero => trivial
  | succ rounds induction =>
      cases head : jsm.clientHeap.head? with
      | none =>
          rw [tickClientsLoop_of_none head]
          exact ⟨holds, sofar⟩
      | some first =>
          by_cases early : nowSecs ≤ (jsm.clientAt first).tickAt
          · rw [tickClientsLoop_of_early head early]
            exact ⟨holds, sofar⟩
          · rw [tickClientsLoop_of_due head (Int64.not_le.mp early)]
            refine Prog.ends_bind (rules.clientHeapDequeue jsm holds) ?_
            rintro cli popped ⟨kept, isKnown⟩
            exact Prog.ends_bind (rules.ends_tickClient tells isKnown kept sofar)
              fun more after done => induction done.1 done.2

/-- A tick keeps the invariant, and all its answers are to clients that wait. -/
theorem ends_tick {told : Reservation → Prop} (tells : Tells inv told) (walk : TubeWalk)
    {jsm : JSM} (holds : inv jsm) :
    (tick nowSecs walk jsm).Ends (fun resvs after => inv after ∧ ∀ resv ∈ resvs, told resv)
      (fun _ => inv) True := by
  refine Prog.ends_bind (rules.keeps_tickDelayStage walk jsm holds) fun _ woken holds => ?_
  refine Prog.ends_bind (rules.ends_tickReadyJobs tells walk holds) fun matched served done => ?_
  refine Prog.ends_bind (Prog.ends_bind (Prog.keeps_gets _ served done.1) fun rounds jsm holds =>
    rules.ends_tickClientsLoop tells rounds holds (by simp)) fun answered after ticked => ?_
  exact ⟨ticked.1, List.forall_mem_append.mpr ⟨done.2, ticked.2⟩⟩

theorem keeps_tick (walk : TubeWalk) : Prog.Keeps inv (tick nowSecs walk) :=
  fun _ holds => (rules.ends_tick tells_true walk holds).mono (fun _ _ kept => kept.1)
    (fun _ _ => id) id

end TickRules

end Coolbeans
