import Coolbeans.JobInvariant

/-!
# Entering and leaving a job heap

What it means that an entry has left a heap, and that a job has entered one,
and that the programs of the containers do just that.  A program that removes
an entry is told apart by the kind of heap it works on; it may fail or panic
only if the entry is not in the heap that its job's state calls for.
-/

namespace Coolbeans

open FiniteMap PositionHeap StatefulProgram

/-- What the job containers leave alone. -/
structure JobFrame (before after : JSM) : Prop where
  clients : after.clientView = before.clientView
  nextDelayTickAt : after.nextDelayTickAt = before.nextDelayTickAt
  maxJobID : after.maxJobID = before.maxJobID

/-- An entry has left a heap. -/
structure Took (key : HeapKey) (entry : Nat) (before after : JSM) : Prop where
  perm : (entry :: after.heapAt key).Perm (before.heapAt key)
  tracked : Tracked entryStore (after.heapState key)
  others : ∀ other, other ≠ key → after.heapAt other = before.heapAt other
  outside : ∀ other, other ∉ before.heapAt key →
    (after.entryAt other).index = (before.entryAt other).index
  sameJob : ∀ other, (after.entryAt other).job = (before.entryAt other).job
  ordered : Ordered (before.keyIn key) (before.heapAt key) →
    Ordered (before.keyIn key) (after.heapAt key)
  jobs : after.jobs = before.jobs
  jobAt : after.jobAt = before.jobAt
  nextJob : after.nextJob = before.nextJob
  nextEntry : after.nextEntry = before.nextEntry
  frame : JobFrame before after

/-- A new entry for a job has entered a heap. -/
structure Entered (key : HeapKey) (job entry : Nat) (before after : JSM) : Prop where
  fresh : entry = before.nextEntry
  perm : (after.heapAt key).Perm (entry :: before.heapAt key)
  tracked : Tracked entryStore (before.heapState key) → entry ∉ before.heapAt key →
    Tracked entryStore (after.heapState key)
  others : ∀ other, other ≠ key → after.heapAt other = before.heapAt other
  outside : ∀ other, other ∉ before.heapAt key → other ≠ entry →
    (after.entryAt other).index = (before.entryAt other).index
  sameJob : ∀ other, other ≠ entry → (after.entryAt other).job = (before.entryAt other).job
  newJob : (after.entryAt entry).job = job
  ordered : Ordered (after.keyIn key) (before.heapAt key) →
    Ordered (after.keyIn key) (after.heapAt key)
  jobs : after.jobs = before.jobs
  jobAt : after.jobAt = before.jobAt
  nextJob : after.nextJob = before.nextJob
  nextEntry : after.nextEntry = before.nextEntry + 1
  frame : JobFrame before after

/-- Two states that no operation on jobs or clients tells apart. -/
structure SameViews (before after : JSM) : Prop where
  jobs : after.jobView = before.jobView
  frame : JobFrame before after

theorem JSM.fields_of_jobView {before after : JSM} (same : after.jobView = before.jobView) :
    after.jobs = before.jobs ∧ after.jobAt = before.jobAt ∧ after.nextJob = before.nextJob ∧
      after.entryAt = before.entryAt ∧ after.nextEntry = before.nextEntry ∧
      after.heapAt = before.heapAt := by
  simpa only [JSM.jobView, Prod.mk.injEq] using same

namespace JobFrame

theorem refl (jsm : JSM) : JobFrame jsm jsm := ⟨rfl, rfl, rfl⟩

theorem trans {first second third : JSM} (before : JobFrame first second)
    (after : JobFrame second third) : JobFrame first third :=
  ⟨after.clients.trans before.clients, after.nextDelayTickAt.trans before.nextDelayTickAt,
    after.maxJobID.trans before.maxJobID⟩

theorem updateJob (jsm : JSM) (job : Nat) (change : Job → Job) :
    JobFrame jsm (jsm.updateJob job change) := ⟨rfl, rfl, rfl⟩

theorem newEntry (jsm : JSM) (job : Nat) : JobFrame jsm (jsm.newEntry job) := ⟨rfl, rfl, rfl⟩

theorem setJobs (jsm : JSM) (index : FMap JobID IndexEntry) :
    JobFrame jsm { jsm with jobs := index } := ⟨rfl, rfl, rfl⟩

theorem createTube (jsm : JSM) (tubeName : TubeName) :
    JobFrame jsm (jsm.createTube tubeName) := by
  refine ⟨?_, ?_, ?_⟩
  · simp only [JSM.clientView, JSM.waitingAt_createTube]
    unfold JSM.createTube
    split <;> rfl
  all_goals
    unfold JSM.createTube
    split <;> rfl

theorem cleanup (jsm : JSM) (tubeName : TubeName) : JobFrame jsm (jsm.cleanup tubeName) := by
  refine ⟨?_, ?_, ?_⟩
  · simp only [JSM.clientView, JSM.waiting_cleanup]
    unfold JSM.cleanup
    split
    · rfl
    · split <;> rfl
  all_goals
    unfold JSM.cleanup
    split
    · rfl
    · split <;> rfl

theorem dropReserved (jsm : JSM) (clientID : ClientID) :
    JobFrame jsm (jsm.dropReserved clientID) := by
  unfold JSM.dropReserved
  split <;> exact ⟨rfl, rfl, rfl⟩

theorem setHeap (jsm : JSM) (key : HeapKey) (items : List Nat) :
    JobFrame jsm (jsm.setHeap key items) := by
  obtain ⟨_, _, _, _, clients, clientHeap, clientAt, nextClient, delayTick, maxJobID⟩ :=
    JSM.setHeap_fields jsm key items
  refine ⟨?_, delayTick, maxJobID⟩
  simp only [JSM.clientView, JSM.waitingAt_setHeap, clients, clientHeap, clientAt, nextClient]

theorem putHeap (jsm : JSM) (key : HeapKey) (heap : HeapState Nat (Nat → JobEntry)) :
    JobFrame jsm (jsm.putHeap key heap) := by
  obtain ⟨clients, delayTick, maxJobID⟩ := setHeap jsm key heap.items
  exact ⟨clients, delayTick, maxJobID⟩

end JobFrame

namespace SameViews

theorem refl (jsm : JSM) : SameViews jsm jsm := ⟨rfl, .refl jsm⟩

theorem createTube (jsm : JSM) (tubeName : TubeName) :
    SameViews jsm (jsm.createTube tubeName) := by
  refine ⟨?_, .createTube jsm tubeName⟩
  have heaps : (jsm.createTube tubeName).heapAt = jsm.heapAt :=
    funext (jsm.heapAt_createTube tubeName)
  simp only [JSM.jobView, heaps]
  unfold JSM.createTube
  split <;> rfl

theorem cleanup (jsm : JSM) (tubeName : TubeName) : SameViews jsm (jsm.cleanup tubeName) := by
  refine ⟨?_, .cleanup jsm tubeName⟩
  have heaps : (jsm.cleanup tubeName).heapAt = jsm.heapAt :=
    funext (jsm.heapAt_cleanup tubeName)
  simp only [JSM.jobView, heaps]
  unfold JSM.cleanup
  split
  · rfl
  · split <;> rfl

theorem dropReserved (jsm : JSM) (clientID : ClientID) :
    SameViews jsm (jsm.dropReserved clientID) := by
  refine ⟨?_, .dropReserved jsm clientID⟩
  have heaps : (jsm.dropReserved clientID).heapAt = jsm.heapAt :=
    funext (JSM.heapAt_dropReserved clientID)
  simp only [JSM.jobView, heaps]
  unfold JSM.dropReserved
  split <;> rfl

variable {before after : JSM}

theorem heapState (same : SameViews before after) : after.heapState = before.heapState := by
  obtain ⟨_, _, _, entryAt, _, heapAt⟩ := JSM.fields_of_jobView same.jobs
  funext key
  simp only [JSM.heapState, heapAt, entryAt]

end SameViews

theorem JobInv.of_sameViews {kinds : Kinds} {hole : Option JobID}
    {index : FMap JobID IndexEntry} {before after : JSM} (inv : JobInv kinds hole index before)
    (same : SameViews before after) : JobInv kinds hole index after := by
  obtain ⟨_, jobAt, nextJob, entryAt, nextEntry, heapAt⟩ := JSM.fields_of_jobView same.jobs
  exact inv.congr jobAt nextJob entryAt nextEntry (congrFun heapAt)

theorem JobsOk.of_sameViews {kinds : Kinds} {before after : JSM}
    (inv : JobsOk kinds before) (same : SameViews before after) : JobsOk kinds after := by
  unfold JobsOk
  rw [(JSM.fields_of_jobView same.jobs).1]
  exact JobInv.of_sameViews inv same

theorem Took.of_sameViews {key : HeapKey} {entry : Nat} {before middle after : JSM}
    (took : Took key entry before middle) (same : SameViews middle after) :
    Took key entry before after := by
  obtain ⟨jobs, jobAt, nextJob, entryAt, nextEntry, heapAt⟩ := JSM.fields_of_jobView same.jobs
  exact
    { perm := by simpa only [heapAt] using took.perm
      tracked := by simpa only [same.heapState] using took.tracked
      others := by simpa only [heapAt] using took.others
      outside := by simpa only [entryAt] using took.outside
      sameJob := by simpa only [entryAt] using took.sameJob
      ordered := by simpa only [heapAt] using took.ordered
      jobs := jobs.trans took.jobs
      jobAt := jobAt.trans took.jobAt
      nextJob := nextJob.trans took.nextJob
      nextEntry := nextEntry.trans took.nextEntry
      frame := took.frame.trans same.frame }

theorem Entered.after_sameViews {key : HeapKey} {job entry : Nat} {before middle after : JSM}
    (same : SameViews before middle) (entered : Entered key job entry middle after) :
    Entered key job entry before after := by
  obtain ⟨jobs, jobAt, nextJob, entryAt, nextEntry, heapAt⟩ := JSM.fields_of_jobView same.jobs
  exact
    { fresh := by simpa only [nextEntry] using entered.fresh
      perm := by simpa only [heapAt] using entered.perm
      tracked := by simpa only [heapAt, same.heapState] using entered.tracked
      others := by simpa only [heapAt] using entered.others
      outside := by simpa only [heapAt, entryAt] using entered.outside
      sameJob := by simpa only [entryAt] using entered.sameJob
      newJob := entered.newJob
      ordered := by simpa only [heapAt] using entered.ordered
      jobs := entered.jobs.trans jobs
      jobAt := entered.jobAt.trans jobAt
      nextJob := entered.nextJob.trans nextJob
      nextEntry := by simpa only [nextEntry] using entered.nextEntry
      frame := same.frame.trans entered.frame }

/-! ## The heap operations -/

section HeapOperations

variable {jsm : JSM} {key : HeapKey}

theorem entryStore_job (memory : Nat → JobEntry) (item : Nat) (position : Int) (entry : Nat) :
    (entryStore.set memory item position entry).job = (memory entry).job := by
  simp only [entryStore]
  split
  next same => rw [same]
  next => rfl

theorem heapState_putHeap (present : jsm.Present key) (heap : HeapState Nat (Nat → JobEntry)) :
    (jsm.putHeap key heap).heapState key = heap := by
  have own : (jsm.putHeap key heap).heapAt key = heap.items := by
    refine (JSM.heapAt_setHeap present heap.items key).trans ?_
    rw [if_pos rfl]
  simp only [JSM.heapState, own]
  rfl

/-- A heap operation writes nothing but positions, so no key changes. -/
theorem keyIn_putHeap {heap : HeapState Nat (Nat → JobEntry)}
    (sameJob : ∀ entry, (heap.mem entry).job = (jsm.entryAt entry).job) :
    (jsm.putHeap key heap).keyIn = jsm.keyIn := by
  obtain ⟨_, jobAt, _⟩ := JSM.setHeap_fields jsm key heap.items
  have jobsAt : (jsm.putHeap key heap).jobAt = jsm.jobAt := jobAt
  have memory : (jsm.putHeap key heap).entryAt = heap.mem := rfl
  funext other entry
  simp only [JSM.keyIn, JSM.jobOf, jobsAt, memory, sameJob]

theorem took_putHeap (present : jsm.Present key) {entry : Nat}
    {heap : HeapState Nat (Nat → JobEntry)}
    (removed : Removed entryStore entry (jsm.heapState key) heap)
    (ordered : Ordered (jsm.keyIn key) (jsm.heapAt key) → Ordered (jsm.keyIn key) heap.items) :
    Took key entry jsm (jsm.putHeap key heap) := by
  have heaps : ∀ other, (jsm.putHeap key heap).heapAt other =
      if other = key then heap.items else jsm.heapAt other :=
    JSM.heapAt_setHeap present heap.items
  have own : (jsm.putHeap key heap).heapAt key = heap.items := by
    rw [heaps, if_pos rfl]
  obtain ⟨jobs, jobAt, nextJob, nextEntry, _⟩ :=
    JSM.setHeap_fields jsm key heap.items
  exact
    { perm := by
        rw [own]
        exact removed.perm
      tracked := by
        rw [heapState_putHeap present]
        exact removed.tracked
      others := fun other different => by rw [heaps, if_neg different]
      outside := removed.outside
      sameJob := fun other =>
        removed.frame (fun memory => (memory other).job) fun memory item position =>
          entryStore_job memory item position other
      ordered := by simpa only [own] using ordered
      jobs := jobs
      jobAt := jobAt
      nextJob := nextJob
      nextEntry := nextEntry
      frame := .putHeap jsm key heap }

theorem entered_pushEntry (present : jsm.Present key) (job : Nat) :
    Entered key job jsm.nextEntry jsm ((jsm.newEntry job).pushEntry key jsm.nextEntry) := by
  have inserted := inserted_push entryStore ((jsm.newEntry job).lessIn key) jsm.nextEntry
    ((jsm.newEntry job).heapState key)
  have sorted := fun ordered => ordered_push entryStore
    ((jsm.newEntry job).compares_lessIn key) ((jsm.newEntry job).heapState key) ordered
    jsm.nextEntry
  unfold JSM.pushEntry
  generalize push entryStore ((jsm.newEntry job).lessIn key) jsm.nextEntry
    ((jsm.newEntry job).heapState key) = heap at inserted sorted ⊢
  have presentNew : (jsm.newEntry job).Present key := by
    cases key <;> exact present
  have sameHeaps : ∀ other, (jsm.newEntry job).heapAt other = jsm.heapAt other := by
    intro other
    cases other <;> rfl
  have heaps : ∀ other, ((jsm.newEntry job).putHeap key heap).heapAt other =
      if other = key then heap.items else jsm.heapAt other := by
    intro other
    rw [← sameHeaps]
    exact JSM.heapAt_setHeap presentNew heap.items other
  have own : ((jsm.newEntry job).putHeap key heap).heapAt key = heap.items := by
    rw [heaps, if_pos rfl]
  have old : ∀ other, other ≠ jsm.nextEntry →
      (jsm.newEntry job).entryAt other = jsm.entryAt other :=
    fun other different => if_neg different
  have entryJob : ∀ other, (heap.mem other).job = ((jsm.newEntry job).entryAt other).job :=
    fun other => inserted.frame (fun memory => (memory other).job)
      fun memory item position => entryStore_job memory item position other
  obtain ⟨jobs, jobAt, nextJob, nextEntry, _⟩ :=
    JSM.setHeap_fields (jsm.newEntry job) key heap.items
  exact
    { fresh := rfl
      perm := by
        rw [own, ← sameHeaps]
        exact inserted.perm
      tracked := by
        intro tracked unused
        rw [heapState_putHeap presentNew]
        apply inserted.tracked
        · intro i other occupied
          have occupied : (jsm.heapAt key)[i]? = some other := by
            rw [← sameHeaps]
            exact occupied
          change ((jsm.newEntry job).entryAt other).index = i
          rw [old]
          · exact tracked i other occupied
          · rintro rfl
            exact unused (List.mem_of_getElem? occupied)
        · change jsm.nextEntry ∉ (jsm.newEntry job).heapAt key
          rw [sameHeaps]
          exact unused
      others := fun other different => by rw [heaps, if_neg different]
      outside := fun other absent different => by
        rw [← old other different]
        apply inserted.outside other _ different
        change other ∉ (jsm.newEntry job).heapAt key
        rw [sameHeaps]
        exact absent
      sameJob := fun other different => by
        rw [← old other different]
        exact entryJob other
      newJob := by
        refine (entryJob jsm.nextEntry).trans ?_
        simp [JSM.newEntry]
      ordered := by
        rw [keyIn_putHeap entryJob, own, ← sameHeaps]
        exact sorted
      jobs := jobs
      jobAt := jobAt
      nextJob := nextJob
      nextEntry := nextEntry
      frame := (JobFrame.newEntry jsm job).trans (.putHeap (jsm.newEntry job) key heap) }

end HeapOperations

/-! ## Removing an entry -/

section Remove

variable {jsm : JSM} {key : HeapKey} {entry : Nat}

theorem ends_removeAt (tracked : Tracked entryStore (jsm.heapState key)) :
    (removeAt key entry jsm).Ends
      (fun found after => Took key found jsm after ∧ (entry ∈ jsm.heapAt key → found = entry) ∧
        ∀ tubeName, after.hasTube tubeName = jsm.hasTube tubeName)
      (fun _ after => after = jsm ∧ entry ∉ jsm.heapAt key) (entry ∉ jsm.heapAt key) := by
  have slot : entry ∈ jsm.heapAt key →
      ∃ i : Nat, (jsm.entryAt entry).index = i ∧ (jsm.heapAt key)[i]? = some entry := by
    intro member
    obtain ⟨i, occupied⟩ := List.getElem?_of_mem member
    exact ⟨i, tracked i entry occupied, occupied⟩
  simp only [removeAt]
  split
  next tooLarge =>
    refine ⟨rfl, fun member => ?_⟩
    obtain ⟨i, position, occupied⟩ := slot member
    obtain ⟨bound, _⟩ := List.getElem?_eq_some_iff.mp occupied
    omega
  split
  next negative =>
    intro member
    obtain ⟨i, position, _⟩ := slot member
    omega
  cases occupied : (jsm.heapAt key)[(jsm.entryAt entry).index.toNat]? with
  | none =>
      rw [List.getElem?_eq_none_iff] at occupied
      omega
  | some found =>
      have foundIs : entry ∈ jsm.heapAt key → found = entry := by
        intro member
        obtain ⟨i, position, atSlot⟩ := slot member
        rw [position, Int.toNat_natCast, atSlot] at occupied
        exact (Option.some.inj occupied).symm
      dsimp only
      split
      next mismatch =>
        refine ⟨rfl, fun member => mismatch ?_⟩
        rw [foundIs member]
      next =>
        obtain ⟨bound, _⟩ := List.getElem?_eq_some_iff.mp occupied
        refine ⟨?_, foundIs, JSM.hasTube_setHeap _⟩
        exact took_putHeap (JSM.present_of_mem _ (List.mem_of_getElem? occupied))
          (removed_remove entryStore _ tracked occupied)
          fun ordered => ordered_remove entryStore (jsm.compares_lessIn key) (jsm.heapState key)
            ordered bound

theorem ends_dequeueAt (tracked : Tracked entryStore (jsm.heapState key))
    (first : (jsm.entryAt entry).index = 0) :
    (dequeueAt key jsm).Ends
      (fun found after => Took key found jsm after ∧ (entry ∈ jsm.heapAt key → found = entry) ∧
        ∀ tubeName, after.hasTube tubeName = jsm.hasTube tubeName)
      (fun _ _ => False) (entry ∉ jsm.heapAt key) := by
  simp only [dequeueAt]
  cases items : jsm.heapAt key with
  | nil => simp
  | cons found rest =>
      have head : (jsm.heapAt key).head? = some found := by rw [items]; rfl
      have foundMem : found ∈ jsm.heapAt key := by rw [items]; exact List.mem_cons_self
      refine ⟨?_, ?_, JSM.hasTube_setHeap _⟩
      · exact took_putHeap (JSM.present_of_mem _ foundMem)
          (removed_pop entryStore _ tracked head)
          fun ordered => ordered_pop entryStore (jsm.compares_lessIn key) (jsm.heapState key)
            ordered
            (List.ne_nil_of_mem foundMem)
      · intro member
        rw [← items] at member
        obtain ⟨i, occupied⟩ := List.getElem?_of_mem member
        have position := tracked i entry occupied
        have root : i = 0 := by
          change (jsm.entryAt entry).index = i at position
          omega
        rw [root, ← List.head?_eq_getElem?, head] at occupied
        exact Option.some.inj occupied

end Remove

/-- The program removes an entry from the heap of a kind that its job's state
calls for. -/
def Removes (remove : Nat → JSMProg Nat) (kind : HeapKind) : Prop :=
  ∀ jsm entry key, Tracked entryStore (jsm.heapState key) →
    (jsm.jobOf entry).home = some key → key.kind = kind →
    (remove entry jsm).Ends
      (fun found after => Took key found jsm after ∧ (entry ∈ jsm.heapAt key → found = entry) ∧
        (kind ≠ .delayed → ∀ tubeName, after.hasTube tubeName = jsm.hasTube tubeName))
      (fun _ after => SameViews jsm after ∧ entry ∉ jsm.heapAt key) (entry ∉ jsm.heapAt key)

/-- The key of a tube's heap, from the home of a job in it. -/
theorem HeapKey.eq_of_home {job : Job} {key : HeapKey} (home : job.home = some key) :
    (key.kind = .ready → key = .ready job.tubeName) ∧
      (key.kind = .delayed → key = .delayed job.tubeName) ∧
      (key.kind = .buried → key = .buried job.tubeName) ∧
      (key.kind = .reserved → key = .reserved job.reservedBy) := by
  unfold Job.home at home
  split at home <;> cases home <;> simp [HeapKey.kind]

theorem getByName_false_apply (jsm : JSM) (tubeName : TubeName) :
    getByName tubeName false jsm =
      if jsm.hasTube tubeName = true then .ok () jsm else .err .entryMissing jsm := by
  simp [getByName]

theorem removes_removeTubeJob {key : TubeName → HeapKey} {kind : HeapKind}
    (ofHome : ∀ (job : Job) (home : HeapKey), job.home = some home → home.kind = kind →
      home = key job.tubeName)
    (inTube : ∀ tubeName jsm, JSM.Present jsm (key tubeName) ↔ jsm.hasTube tubeName = true) :
    Removes (removeTubeJob key) kind := by
  intro jsm entry home tracked isHome isKind
  have homeIs := ofHome _ _ isHome isKind
  unfold removeTubeJob
  rw [Prog.gets_bind]
  rw [Prog.bind_apply, getByName_false_apply]
  split
  swap
  next missing =>
    refine ⟨.refl _, fun member => missing ?_⟩
    rw [homeIs] at member
    exact (inTube _ _).mp (JSM.present_of_mem _ member)
  rw [Outcome.ok_andThen, ← homeIs]
  refine (ends_removeAt tracked).mono ?_ ?_ id
  · rintro found after ⟨took, own, tubes⟩
    exact ⟨took, own, fun _ => tubes⟩
  · rintro _ _ ⟨rfl, missing⟩
    exact ⟨.refl _, missing⟩

theorem removes_removeReadyJob : Removes removeReadyJob .ready :=
  removes_removeTubeJob (fun _ _ home => (HeapKey.eq_of_home home).1) fun _ _ => Iff.rfl

theorem removes_removeBuriedJob : Removes removeBuriedJob .buried :=
  removes_removeTubeJob (fun _ _ home => (HeapKey.eq_of_home home).2.2.1) fun _ _ => Iff.rfl

theorem removes_removeDelayedJob : Removes removeDelayedJob .delayed := by
  intro jsm entry home tracked isHome isKind
  have homeIs := (HeapKey.eq_of_home isHome).2.1 isKind
  unfold removeDelayedJob
  rw [Prog.gets_bind]
  rw [Prog.bind_apply, getByName_false_apply]
  split
  swap
  next missing =>
    refine ⟨.refl _, fun member => missing ?_⟩
    rw [homeIs] at member
    exact JSM.present_of_mem _ member
  rw [Outcome.ok_andThen, ← homeIs]
  refine Prog.ends_attempt_bind ((ends_removeAt tracked).mono (fun _ _ took => took) ?_ id) ?_
  · rintro _ _ ⟨rfl, missing⟩
    exact ⟨.cleanup _ _, missing⟩
  · rintro found after ⟨took, own, _⟩
    exact ⟨took.of_sameViews (.cleanup _ _), own, fun impossible => absurd rfl impossible⟩

theorem removes_removeReservedJob : Removes removeReservedJob .reserved := by
  intro jsm entry home tracked isHome isKind
  have homeIs := (HeapKey.eq_of_home isHome).2.2.2 isKind
  have hasTube_dropReserved : ∀ (jsm : JSM) (clientID : ClientID) (tubeName : TubeName),
      (jsm.dropReserved clientID).hasTube tubeName = jsm.hasTube tubeName := by
    intro jsm clientID tubeName
    unfold JSM.dropReserved
    split <;> rfl
  unfold removeReservedJob
  simp only [Prog.bind_apply, Prog.gets_apply, Outcome.ok_andThen]
  rw [Prog.require_apply]
  split
  swap
  next missing =>
    refine ⟨.refl _, fun member => missing ?_⟩
    rw [homeIs] at member
    simp only [JSM.heapAt] at member
    cases found : jsm.reservedJobs.lookup (jsm.jobOf entry).reservedBy with
    | none => simp [found] at member
    | some items => rfl
  rw [Outcome.ok_andThen, ← homeIs, Prog.gets_bind]
  refine Prog.ends_attempt_bind (Outcome.Ends.mono (show Outcome.Ends _
    (fun found after => Took home found jsm after ∧ (entry ∈ jsm.heapAt home → found = entry) ∧
      ∀ tubeName, after.hasTube tubeName = jsm.hasTube tubeName)
    (fun _ after => after = jsm ∧ entry ∉ jsm.heapAt home) (entry ∉ jsm.heapAt home) from ?_)
    (fun _ _ took => took) ?_ id) ?_
  · split
    next first => exact (ends_dequeueAt tracked first).mono (fun _ _ => id) (by simp) id
    next => exact ends_removeAt tracked
  · rintro _ _ ⟨rfl, missing⟩
    exact ⟨.dropReserved _ _, missing⟩
  · rintro found after ⟨took, own, tubes⟩
    refine ⟨took.of_sameViews (.dropReserved _ _), own, fun _ tubeName => ?_⟩
    rw [hasTube_dropReserved, tubes]

/-! ## Entering a job -/

/-- The program enters a job into the heap that the key function names. -/
def Enters (enqueue : Nat → JSMProg Nat) (keyOf : Job → HeapKey) : Prop :=
  ∀ jsm job,
    (enqueue job jsm).Ends
      (fun entry after => Entered (keyOf (jsm.jobAt job)) job entry jsm after ∧
        ∀ tubeName, jsm.hasTube tubeName = true → after.hasTube tubeName = true)
      (fun _ _ => False) False

theorem ends_enqueueAt {jsm : JSM} (key : HeapKey) (present : jsm.Present key) (job : Nat) :
    (enqueueAt key job jsm).Ends
      (fun entry after => Entered key job entry jsm after ∧
        ∀ tubeName, after.hasTube tubeName = jsm.hasTube tubeName)
      (fun _ _ => False) False := by
  refine ⟨entered_pushEntry present job, fun tubeName => ?_⟩
  exact JSM.hasTube_setHeap _ _

theorem enters_enqueueTubeJob {key : TubeName → HeapKey}
    (inTube : ∀ tubeName jsm, JSM.Present jsm (key tubeName) ↔ jsm.hasTube tubeName = true) :
    Enters (enqueueTubeJob key) (fun job => key job.tubeName) := by
  intro jsm job
  have present :
      (jsm.createTube (jsm.jobAt job).tubeName).Present (key (jsm.jobAt job).tubeName) := by
    rw [inTube, JSM.hasTube_createTube]
    simp
  have entered := ends_enqueueAt _ present job
  refine entered.mono ?_ (fun _ _ => id) id
  rintro entry after ⟨inserted, tubes⟩
  refine ⟨inserted.after_sameViews (.createTube _ _), fun tubeName old => ?_⟩
  rw [tubes, JSM.hasTube_createTube, old, Bool.or_true]

theorem enters_enqueueReadyJob : Enters enqueueReadyJob (fun job => .ready job.tubeName) :=
  enters_enqueueTubeJob fun _ _ => Iff.rfl

theorem enters_enqueueDelayedJob : Enters enqueueDelayedJob (fun job => .delayed job.tubeName) :=
  enters_enqueueTubeJob fun _ _ => Iff.rfl

theorem enters_enqueueBuriedJob : Enters enqueueBuriedJob (fun job => .buried job.tubeName) :=
  enters_enqueueTubeJob fun _ _ => Iff.rfl

theorem enters_enqueueReservedJob (clientID : ClientID) :
    Enters (enqueueReservedJob clientID) (fun _ => .reserved clientID) := by
  intro jsm job
  refine (ends_enqueueAt (.reserved clientID) trivial job).mono ?_ (fun _ _ => id) id
  rintro entry after ⟨inserted, tubes⟩
  exact ⟨inserted, fun tubeName old => by rw [tubes, old]⟩

/-! ## Peeking -/

theorem attempt_peekAt (key : HeapKey) (jsm : JSM) :
    Prog.attempt (peekAt key) jsm =
      match (jsm.heapAt key).head? with
      | none => .ok (.error .entryMissing) jsm
      | some first => .ok (.ok first) jsm := by
  unfold Prog.attempt peekAt
  cases (jsm.heapAt key).head? <;> rfl

end Coolbeans
